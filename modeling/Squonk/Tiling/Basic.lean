import Mathlib.Data.List.Sort
import Mathlib.Order.Interval.Set.LinearOrder

/-!
# Tilings

Pieces of an interval that follow each other without a gap, and two lists of pieces that together
are such a tiling. A piece is the pair of its ends.
-/

namespace tiling

variable {α : Type*} [LinearOrder α] {edge : α → Prop}

/-- The pieces lie end to end from one point to another; none is empty, and their ends are
    edges. -/
inductive Tiles (edge : α → Prop) : α → α → List (α × α) → Prop
  | nil {a : α} : edge a → Tiles edge a a []
  | cons {a b c : α} {pieces : List (α × α)} : edge a → a < b → Tiles edge b c pieces →
      Tiles edge a c ((a, b) :: pieces)

namespace Tiles

theorem edge_left {a b : α} {pieces : List (α × α)} (h : Tiles edge a b pieces) : edge a := by
  cases h with
  | nil h => exact h
  | cons h _ _ => exact h

theorem edge_right {a b : α} {pieces : List (α × α)} (h : Tiles edge a b pieces) : edge b := by
  induction h with
  | nil h => exact h
  | cons _ _ _ ih => exact ih

theorem le {a b : α} {pieces : List (α × α)} (h : Tiles edge a b pieces) : a ≤ b := by
  induction h with
  | nil _ => exact le_rfl
  | cons _ hlt _ ih => exact hlt.le.trans ih

theorem append {a b c : α} {front back : List (α × α)} (h : Tiles edge a b front)
    (h' : Tiles edge b c back) : Tiles edge a c (front ++ back) := by
  induction h with
  | nil _ => exact h'
  | cons hedge hlt _ ih => exact .cons hedge hlt (ih h')

/-- A piece lies in the interval, is not empty, and ends at edges. -/
theorem of_mem {a b : α} {pieces : List (α × α)} (h : Tiles edge a b pieces) {p : α × α}
    (hp : p ∈ pieces) : a ≤ p.1 ∧ p.1 < p.2 ∧ p.2 ≤ b ∧ edge p.1 ∧ edge p.2 := by
  induction h with
  | nil _ => cases hp
  | @cons a b c pieces hedge hlt hrest ih =>
    cases hp with
    | head => exact ⟨le_rfl, hlt, hrest.le, hedge, hrest.edge_left⟩
    | tail _ hp =>
      obtain ⟨hle, hrest⟩ := ih hp
      exact ⟨hlt.le.trans hle, hrest⟩

/-- Each piece ends before the next ones start. -/
theorem pairwise {a b : α} {pieces : List (α × α)} (h : Tiles edge a b pieces) :
    pieces.Pairwise fun p q => p.2 ≤ q.1 := by
  induction h with
  | nil _ => exact List.Pairwise.nil
  | cons _ _ hrest ih => exact List.Pairwise.cons (fun q hq => (hrest.of_mem hq).1) ih

/-- The points of the interval are those of the pieces. -/
theorem mem_Ico_iff {a b : α} {pieces : List (α × α)} (h : Tiles edge a b pieces) (x : α) :
    x ∈ Set.Ico a b ↔ ∃ p ∈ pieces, x ∈ Set.Ico p.1 p.2 := by
  induction h with
  | nil _ => simp
  | cons _ hlt hrest ih =>
    rw [← Set.Ico_union_Ico_eq_Ico hlt.le hrest.le, Set.mem_union, ih]
    simp only [List.mem_cons, exists_eq_or_imp]

end Tiles

/-! ## Two lists of pieces -/

/-- The pieces of two lists in the order they start in. -/
def merged (ps qs : List (α × α)) : List (α × α) := ps.merge qs fun p q => decide (p.1 ≤ q.1)

@[simp] theorem merged_nil_left (qs : List (α × α)) : merged [] qs = qs := by
  simp [merged]

@[simp] theorem merged_nil_right (ps : List (α × α)) : merged ps [] = ps := by
  simp [merged]

theorem mem_merged {ps qs : List (α × α)} {p : α × α} : p ∈ merged ps qs ↔ p ∈ ps ∨ p ∈ qs :=
  List.mem_merge

theorem sublist_merged_left (ps qs : List (α × α)) : ps.Sublist (merged ps qs) := by
  unfold merged
  fun_induction List.merge with
  | case1 qs => exact List.nil_sublist _
  | case2 ps => exact List.Sublist.refl _
  | case3 p ps q qs hle ih => exact ih.cons_cons p
  | case4 p ps q qs hle ih => exact ih.cons q

theorem sublist_merged_right (ps qs : List (α × α)) : qs.Sublist (merged ps qs) := by
  unfold merged
  fun_induction List.merge with
  | case1 qs => exact List.Sublist.refl _
  | case2 ps => exact List.nil_sublist _
  | case3 p ps q qs hle ih => exact ih.cons p
  | case4 p ps q qs hle ih => exact ih.cons_cons q

/-- A piece of one list overlaps none of the other. -/
theorem Tiles.apart {a b : α} {ps qs : List (α × α)} (h : Tiles edge a b (merged ps qs))
    {p q : α × α} (hp : p ∈ ps) (hq : q ∈ qs) : p.2 ≤ q.1 ∨ q.2 ≤ p.1 := by
  have hpairs : (ps ++ qs).Pairwise fun p q => p.2 ≤ q.1 ∨ q.2 ≤ p.1 := by
    have hperm := @List.merge_perm_append _ (fun p q : α × α => decide (p.1 ≤ q.1)) ps qs
    exact hperm.pairwise (h.pairwise.imp fun hle => .inl hle) fun hpq => hpq.symm
  exact (List.pairwise_append.mp hpairs).2.2 p hp q hq

/-- A piece in front of the others comes first, whichever list it is put into. -/
theorem Tiles.cons_left {a b c : α} {ps qs : List (α × α)} (hedge : edge a) (hlt : a < b)
    (h : Tiles edge b c (merged ps qs)) : Tiles edge a c (merged ((a, b) :: ps) qs) := by
  have heq : merged ((a, b) :: ps) qs = (a, b) :: merged ps qs := by
    cases qs with
    | nil => simp
    | cons q qs =>
      have hq := (h.of_mem (mem_merged.mpr (.inr List.mem_cons_self))).1
      exact List.cons_merge_cons_pos _ _ _ (by simpa using hlt.le.trans hq)
  rw [heq]
  exact .cons hedge hlt h

theorem Tiles.cons_right {a b c : α} {ps qs : List (α × α)} (hedge : edge a) (hlt : a < b)
    (h : Tiles edge b c (merged ps qs)) : Tiles edge a c (merged ps ((a, b) :: qs)) := by
  have heq : merged ps ((a, b) :: qs) = (a, b) :: merged ps qs := by
    cases ps with
    | nil => simp
    | cons p ps =>
      have hp := (h.of_mem (mem_merged.mpr (.inl List.mem_cons_self))).1
      exact List.cons_merge_cons_neg _ _ _ (by simpa using hlt.trans_le hp)
  rw [heq]
  exact .cons hedge hlt h

/-- Pieces in front of the others come first. -/
theorem Tiles.append_right {a b c : α} {front ps qs : List (α × α)} (h : Tiles edge a b front)
    (h' : Tiles edge b c (merged ps qs)) : Tiles edge a c (merged ps (front ++ qs)) := by
  induction h with
  | nil _ => exact h'
  | cons hedge hlt _ ih => exact (ih h').cons_right hedge hlt

end tiling
