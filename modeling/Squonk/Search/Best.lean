import Mathlib.Data.List.Basic
import Mathlib.Data.List.Induction

/-!
# The best item

A list is gone through once, and the item kept is replaced by each later one that passes a test and
is better. Where being better is transitive, no item that passes is better than the one left over.
-/

namespace search

variable {α : Type*} {passes : α → Bool} {better : α → α → Bool} {items : List α} {a b : α}

def pick (passes : α → Bool) (better : α → α → Bool) (items : List α) : Option α :=
  items.foldl (fun best a => if passes a && best.all (better a) then some a else best) none

theorem pick_concat : pick passes better (items ++ [a]) =
    if passes a && (pick passes better items).all (better a) then some a
    else pick passes better items := by
  rw [pick, List.foldl_concat]
  rfl

theorem pick_eq_none_iff : pick passes better items = none ↔ ∀ a ∈ items, passes a = false := by
  induction items using List.reverseRecOn with
  | nil => simp [pick]
  | append_singleton items a ih =>
    rw [pick_concat, List.forall_mem_append, List.forall_mem_singleton, ← ih]
    cases hpick : pick passes better items with
    | none => simp
    | some best =>
      constructor
      · intro h
        split at h
        · cases h
        · cases h
      · rintro ⟨h, -⟩
        cases h

/-- What is kept is an item that passes. -/
theorem mem_of_pick (h : pick passes better items = some a) : a ∈ items ∧ passes a = true := by
  induction items using List.reverseRecOn with
  | nil => cases h
  | append_singleton items b ih =>
    rw [pick_concat] at h
    split at h
    · next hb =>
      obtain rfl := Option.some.inj h
      exact ⟨List.mem_append_right _ List.mem_cons_self, (Bool.and_eq_true _ _ ▸ hb).1⟩
    · obtain ⟨hmem, hpass⟩ := ih h
      exact ⟨List.mem_append_left _ hmem, hpass⟩

/-- No item that passes is better than the one that is kept. -/
theorem pick_best (hirrefl : ∀ a, better a a = false)
    (htrans : ∀ a b c, better a b = true → better b c = true → better a c = true)
    (h : pick passes better items = some a) (hb : b ∈ items) (hpass : passes b = true) :
    better b a = false := by
  induction items using List.reverseRecOn generalizing a with
  | nil => cases hb
  | append_singleton items c ih =>
    rw [pick_concat] at h
    rw [List.mem_append, List.mem_singleton] at hb
    split at h
    · next hc =>
      obtain rfl := Option.some.inj h
      obtain hb | rfl := hb
      · cases hpick : pick passes better items with
        | none => rw [pick_eq_none_iff.mp hpick b hb] at hpass; cases hpass
        | some best =>
          -- Better than `c` would be better than what was kept before `c`.
          have hbest := ih hpick hb
          rw [hpick, Option.all_some, Bool.and_eq_true] at hc
          by_contra hbetter
          rw [Bool.not_eq_false] at hbetter
          rw [htrans b c best hbetter hc.2] at hbest
          cases hbest
      · exact hirrefl b
    · next hc =>
      obtain hb | rfl := hb
      · exact ih h hb
      · rw [h, Option.all_some, hpass, Bool.true_and, Bool.not_eq_true] at hc
        exact hc

end search
