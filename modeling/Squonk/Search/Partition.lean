import Mathlib

/-!
# Partition points

A list is partitioned by a test when whatever passes it stands in front of whatever does not.
Halving finds the point between the two, and the points of two tests cut out the block of what
passes the one and not the other.
-/

namespace search

variable {α : Type*}

/-- Halve the `size` elements from `base` on, of which the first is known to pass unless it is the
first of the list. -/
def partition_loop (p : α → Bool) (xs : List α) (size base : Nat) : Nat :=
  if size ≤ 1 then
    if xs[base]?.any p then base + 1 else base
  else
    let half := size / 2
    partition_loop p xs (size - half) (if xs[base + half]?.any p then base + half else base)
termination_by size
decreasing_by omega

/-- The number of elements that pass, where the list is partitioned. -/
def partition_point (p : α → Bool) (xs : List α) : Nat :=
  if xs.length = 0 then 0 else partition_loop p xs xs.length 0

/-- Every element in front of one that passes does so too. -/
def Partitioned (p : α → Bool) (xs : List α) : Prop :=
  xs.Pairwise fun a b => p b = true → p a = true

variable {p q : α → Bool} {xs : List α}

/-- Where the first element does not pass, none does. -/
theorem Partitioned.filter_eq_nil {a : α} (h : Partitioned p (a :: xs)) (ha : ¬ p a = true) :
    (a :: xs).filter p = [] := by
  apply List.filter_eq_nil_iff.mpr
  intro b hb hpb
  obtain rfl | hb := List.mem_cons.mp hb
  · exact ha hpb
  · exact ha ((List.pairwise_cons.mp h).1 b hb hpb)

theorem Partitioned.take_length_filter (h : Partitioned p xs) :
    xs.take (xs.filter p).length = xs.filter p := by
  induction xs with
  | nil => rfl
  | cons a xs ih =>
    by_cases ha : p a = true
    · rw [List.filter_cons_of_pos ha, List.length_cons, List.take_succ_cons,
        ih (List.pairwise_cons.mp h).2]
    · rw [h.filter_eq_nil ha, List.length_nil, List.take_zero]

/-- An element passes exactly in front of the point. -/
theorem Partitioned.any_getElem (h : Partitioned p xs) (n : Nat) :
    xs[n]?.any p = true ↔ n < (xs.filter p).length := by
  induction xs generalizing n with
  | nil => simp
  | cons a xs ih =>
    by_cases ha : p a = true
    · rw [List.filter_cons_of_pos ha, List.length_cons]
      cases n with
      | zero => simp [ha]
      | succ n =>
        rw [List.getElem?_cons_succ, ih (List.pairwise_cons.mp h).2]
        omega
    · have hnone := List.filter_eq_nil_iff.mp (h.filter_eq_nil ha)
      rw [h.filter_eq_nil ha]
      constructor
      · intro hn
        cases hget : (a :: xs)[n]? with
        | none =>
          rw [hget] at hn
          cases hn
        | some b =>
          rw [hget] at hn
          exact absurd hn (hnone b (List.mem_of_getElem? hget))
      · intro hn
        exact absurd hn (Nat.not_lt_zero n)

/-- The point stays among the elements that are left. -/
theorem Partitioned.loop_eq (h : Partitioned p xs) {size base : Nat} (hsize : 0 < size)
    (hlo : base ≤ (xs.filter p).length) (hhi : (xs.filter p).length ≤ base + size) :
    partition_loop p xs size base = (xs.filter p).length := by
  induction size using Nat.strong_induction_on generalizing base with
  | _ size ih =>
    unfold partition_loop
    split
    · by_cases hbase : xs[base]?.any p = true
      · rw [if_pos hbase]
        have := (h.any_getElem base).mp hbase
        omega
      · rw [if_neg hbase]
        have := mt (h.any_getElem base).mpr hbase
        omega
    · show partition_loop p xs (size - size / 2)
        (if xs[base + size / 2]?.any p then base + size / 2 else base) = _
      by_cases hmid : xs[base + size / 2]?.any p = true
      · have := (h.any_getElem _).mp hmid
        rw [if_pos hmid]
        apply ih _ (by omega) (by omega)
        · omega
        · omega
      · have := mt (h.any_getElem _).mpr hmid
        rw [if_neg hmid]
        apply ih _ (by omega) (by omega)
        · omega
        · omega

theorem Partitioned.partition_point_eq (h : Partitioned p xs) :
    partition_point p xs = (xs.filter p).length := by
  unfold partition_point
  have hle := List.length_filter_le p xs
  split
  · omega
  · exact h.loop_eq (by omega) (by omega) (by omega)

theorem Partitioned.take_partition_point (h : Partitioned p xs) :
    xs.take (partition_point p xs) = xs.filter p := by
  rw [h.partition_point_eq, h.take_length_filter]

/-- What stands between the points of two tests is what passes the second and not the first. -/
theorem Partitioned.block (hp : Partitioned p xs) (hq : Partitioned q xs) :
    (xs.take (partition_point q xs)).drop (partition_point p xs) =
      xs.filter fun a => !p a && q a := by
  rw [hq.take_partition_point, hp.partition_point_eq]
  induction xs with
  | nil => rfl
  | cons a xs ih =>
    have hprest := (List.pairwise_cons.mp hp).2
    obtain ⟨hqfirst, hqrest⟩ := List.pairwise_cons.mp hq
    by_cases ha : p a = true
    · rw [List.filter_cons_of_pos ha, List.length_cons]
      have hskip : (a :: xs).filter (fun a => !p a && q a) = xs.filter fun a => !p a && q a :=
        List.filter_cons_of_neg (by simp [ha])
      rw [hskip, ← ih hprest hqrest]
      by_cases hqa : q a = true
      · rw [List.filter_cons_of_pos hqa, List.drop_succ_cons]
      · have hnone : xs.filter q = [] :=
          List.filter_eq_nil_iff.mpr fun b hb hqb => hqa (hqfirst b hb hqb)
        rw [List.filter_cons_of_neg hqa, hnone, List.drop_nil, List.drop_nil]
    · have hnone := List.filter_eq_nil_iff.mp (hp.filter_eq_nil ha)
      rw [hp.filter_eq_nil ha, List.length_nil, List.drop_zero]
      apply List.filter_congr
      intro b hb
      rw [Bool.eq_false_iff.mpr (hnone b hb)]
      rfl

/-- The block is empty where the points stand in the other order. -/
theorem Partitioned.slice (hp : Partitioned p xs) (hq : Partitioned q xs) :
    (if partition_point p xs ≥ partition_point q xs then []
      else (xs.take (partition_point q xs)).drop (partition_point p xs)) =
      xs.filter fun a => !p a && q a := by
  rw [← hp.block hq]
  split
  · symm
    apply List.drop_eq_nil_of_le
    rw [List.length_take]
    omega
  · rfl

end search
