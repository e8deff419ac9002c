import Mathlib.Data.List.Nodup

/-!
# Numbering by first occurrence

A table gives each new value the next slot and leaves the slots of the others alone.
-/

namespace numbering

variable {α : Type} [DecidableEq α]

/-- Add a value to a table, unless it has a slot. -/
def insert (table : List α) (x : α) : List α := if x ∈ table then table else table ++ [x]

/-- Number the values of a list in their order. -/
def insertAll (table xs : List α) : List α := xs.foldl insert table

theorem prefix_insert (table : List α) (x : α) : table <+: insert table x := by
  unfold insert
  split
  · exact List.prefix_refl _
  · exact List.prefix_append _ _

theorem prefix_insertAll (table xs : List α) : table <+: insertAll table xs := by
  induction xs generalizing table with
  | nil => exact List.prefix_refl _
  | cons x xs ih => exact (prefix_insert table x).trans (ih (insert table x))

theorem length_insert_le (table : List α) (x : α) :
    (insert table x).length ≤ table.length + 1 := by
  unfold insert
  split
  · omega
  · simp

theorem length_insertAll_le (table xs : List α) :
    (insertAll table xs).length ≤ table.length + xs.length := by
  induction xs generalizing table with
  | nil => simp [insertAll]
  | cons x xs ih =>
    have hrest := ih (insert table x)
    have hfirst := length_insert_le table x
    have hstep : insertAll table (x :: xs) = insertAll (insert table x) xs := rfl
    rw [hstep, List.length_cons]
    omega

/-- New values are appended as they come. -/
theorem insertAll_of_nodup {table xs : List α} (h : (table ++ xs).Nodup) :
    insertAll table xs = table ++ xs := by
  induction xs generalizing table with
  | nil => simp [insertAll]
  | cons x xs ih =>
    have hnew : x ∉ table := by
      intro hx
      rw [List.nodup_append] at h
      exact h.2.2 x hx x (by simp) rfl
    have hstep : insertAll table (x :: xs) = insertAll (insert table x) xs := rfl
    have hinsert : insert table x = table ++ [x] := if_neg hnew
    have hassoc : table ++ x :: xs = table ++ [x] ++ xs := by simp
    rw [hstep, hinsert, hassoc]
    rw [hassoc] at h
    exact ih h

/-- No slot is saved exactly when all values are new and different. -/
theorem length_insertAll_eq_iff {table xs : List α} (htable : table.Nodup) :
    (insertAll table xs).length = table.length + xs.length ↔ (table ++ xs).Nodup := by
  constructor
  · intro h
    induction xs generalizing table with
    | nil => simpa using htable
    | cons x xs ih =>
      have hstep : insertAll table (x :: xs) = insertAll (insert table x) xs := rfl
      have hle := length_insertAll_le (insert table x) xs
      rw [hstep, List.length_cons] at h
      by_cases hx : x ∈ table
      · have hsame : insert table x = table := if_pos hx
        rw [hsame] at h hle
        omega
      · have hinsert : insert table x = table ++ [x] := if_neg hx
        have hnodup : (table ++ [x]).Nodup := by
          rw [List.nodup_append]
          refine ⟨htable, List.nodup_singleton x, ?_⟩
          intro a ha b hb
          rw [List.mem_singleton] at hb
          rintro rfl
          exact hx (hb ▸ ha)
        rw [hinsert] at h
        have hrest := ih hnodup (by rw [h, List.length_append, List.length_singleton]; omega)
        have hassoc : table ++ x :: xs = table ++ [x] ++ xs := by simp
        rw [hassoc]
        exact hrest
  · intro h
    rw [insertAll_of_nodup h, List.length_append]

end numbering
