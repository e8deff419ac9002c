import Mathlib.Logic.Function.Basic

/-!
# Numbering keys

Each key of a list gets a number, a new one where it has none yet; equal keys get equal numbers
and only they do.
-/

namespace numbering

variable {β : Type} [DecidableEq β]

/-- The numbers of the keys, where `ids` are given out and `next` is the first free one. -/
def classes : List β → (β → Option Nat) → Nat → List Nat
  | [], _, _ => []
  | key :: keys, ids, next =>
    match ids key with
    | some id => id :: classes keys ids next
    | none => next :: classes keys (Function.update ids key (some next)) (next + 1)

/-- No number is given to two keys, and those from `next` on are free. -/
structure Fresh (ids : β → Option Nat) (next : Nat) : Prop where
  lt : ∀ key id, ids key = some id → id < next
  injective : ∀ key key' id, ids key = some id → ids key' = some id → key = key'

omit [DecidableEq β] in
theorem fresh_empty (next : Nat) : Fresh (fun _ : β => none) next :=
  ⟨fun _ _ h => (by cases h), fun _ _ _ h => (by cases h)⟩

theorem Fresh.update {ids : β → Option Nat} {next : Nat} (h : Fresh ids next) (key : β) :
    Fresh (Function.update ids key (some next)) (next + 1) := by
  have hcases {key' : β} {id : Nat} (hid : Function.update ids key (some next) key' = some id) :
      key' = key ∧ id = next ∨ ids key' = some id := by
    by_cases heq : key' = key
    · subst heq
      rw [Function.update_self] at hid
      exact .inl ⟨rfl, (Option.some.inj hid).symm⟩
    · rw [Function.update_of_ne heq] at hid
      exact .inr hid
  constructor
  · intro key' id hid
    rcases hcases hid with ⟨-, rfl⟩ | hid
    · exact Nat.lt_succ_self _
    · exact Nat.lt_succ_of_lt (h.lt key' id hid)
  · intro key₁ key₂ id h₁ h₂
    rcases hcases h₁ with ⟨rfl, rfl⟩ | hold₁ <;> rcases hcases h₂ with ⟨rfl, hid⟩ | hold₂
    · rfl
    · exact absurd (h.lt _ _ hold₂) (Nat.lt_irrefl _)
    · have hlt := h.lt _ _ hold₁
      omega
    · exact h.injective _ _ _ hold₁ hold₂

/-- All numbers are those of one table that grew out of the first one. -/
theorem classes_eq_map (keys : List β) {ids : β → Option Nat} {next : Nat} (h : Fresh ids next) :
    ∃ ids' next', Fresh ids' next' ∧ (∀ key id, ids key = some id → ids' key = some id) ∧
      (classes keys ids next).map some = keys.map ids' := by
  induction keys generalizing ids next with
  | nil => exact ⟨ids, next, h, fun _ _ hid => hid, rfl⟩
  | cons key keys ih =>
    cases hkey : ids key with
    | some id =>
      obtain ⟨ids', next', hfresh, hgrown, heq⟩ := ih h
      refine ⟨ids', next', hfresh, hgrown, ?_⟩
      rw [classes, hkey, List.map_cons, List.map_cons, heq, hgrown key id hkey]
    | none =>
      obtain ⟨ids', next', hfresh, hgrown, heq⟩ := ih (h.update key)
      refine ⟨ids', next', hfresh, fun key' id hid => hgrown key' id ?_, ?_⟩
      · have hne : key' ≠ key := by
          rintro rfl
          rw [hkey] at hid
          cases hid
        rw [Function.update_of_ne hne]
        exact hid
      · rw [classes, hkey, List.map_cons, List.map_cons, heq, hgrown key next]
        exact Function.update_self ..

theorem length_classes (keys : List β) (ids : β → Option Nat) (next : Nat) :
    (classes keys ids next).length = keys.length := by
  fun_induction classes keys ids next with
  | case1 => rfl
  | case2 _ _ _ _ _ _ ih => rw [List.length_cons, List.length_cons, ih]
  | case3 _ _ _ _ _ ih => rw [List.length_cons, List.length_cons, ih]

/-- Equal keys have equal numbers, and only they do. -/
theorem classes_eq_iff {keys : List β} (next : Nat) {i j : Nat} {key key' : β}
    (hi : keys[i]? = some key) (hj : keys[j]? = some key') :
    (classes keys (fun _ => none) next)[i]? = (classes keys (fun _ => none) next)[j]? ↔
      key = key' := by
  obtain ⟨ids, next', hfresh, -, heq⟩ := classes_eq_map keys (fresh_empty next)
  have hnumber {n : Nat} {k : β} (hn : keys[n]? = some k) :
      (classes keys (fun _ => none) next)[n]? = ids k := by
    have hmap := congrArg (·[n]?) heq
    simp only [List.getElem?_map, hn, Option.map_some] at hmap
    cases hclass : (classes keys (fun _ => none) next)[n]? with
    | none =>
      rw [hclass] at hmap
      cases hmap
    | some id =>
      rw [hclass] at hmap
      exact Option.some.inj hmap
  rw [hnumber hi, hnumber hj]
  constructor
  · intro hids
    have hlt := (List.getElem?_eq_some_iff.mp hi).1
    have hclass := hnumber hi
    rw [List.getElem?_eq_getElem (by rwa [length_classes])] at hclass
    exact hfresh.injective _ _ _ hclass.symm (hids ▸ hclass.symm)
  · rintro rfl
    rfl

end numbering
