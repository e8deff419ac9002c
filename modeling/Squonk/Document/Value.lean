import Mathlib.Data.List.Basic

/-!
# Serialized values

A value of the serialization data model, and the guard on its nesting. An option and a newtype
are no level of their own; every other compound is one.
-/

namespace squonk.serde_depth

inductive Value
  | unit
  | truth (value : Bool)
  | number (value : Nat)
  | text (value : String)
  | wrapped (value : Value)
  | compound (items : List Value)

namespace Value

mutual

/-- How many compounds are inside each other. -/
def nesting : Value → Nat
  | unit | truth _ | number _ | text _ => 0
  | wrapped value => value.nesting
  | compound items => nestingAll items + 1

def nestingAll : List Value → Nat
  | [] => 0
  | value :: rest => max value.nesting (nestingAll rest)

end

mutual

/-- Read a value under a budget: a compound spends one of it on its items. -/
def limited (budget : Nat) : Value → Option Value
  | unit => some unit
  | truth value => some (truth value)
  | number value => some (number value)
  | text value => some (text value)
  | wrapped value => (limited budget value).map wrapped
  | compound items =>
    match budget with
    | 0 => none
    | budget + 1 => (limitedAll budget items).map compound

def limitedAll (budget : Nat) : List Value → Option (List Value)
  | [] => some []
  | value :: rest =>
    match limited budget value, limitedAll budget rest with
    | some value, some rest => some (value :: rest)
    | _, _ => none

end

mutual

theorem limited_eq (budget : Nat) (value : Value) :
    limited budget value = if value.nesting ≤ budget then some value else none := by
  match value with
  | unit | truth _ | number _ | text _ => rw [limited, nesting, if_pos (Nat.zero_le budget)]
  | wrapped value =>
    rw [limited, limited_eq budget value, nesting]
    split <;> rfl
  | compound items =>
    rw [limited.eq_def, nesting]
    cases budget with
    | zero => rw [if_neg (by omega)]
    | succ budget =>
      simp only [limitedAll_eq budget items, Nat.add_le_add_iff_right]
      split <;> rfl

theorem limitedAll_eq (budget : Nat) (items : List Value) :
    limitedAll budget items = if nestingAll items ≤ budget then some items else none := by
  match items with
  | [] => rw [limitedAll, nestingAll, if_pos (Nat.zero_le budget)]
  | value :: rest =>
    rw [limitedAll, limited_eq budget value, limitedAll_eq budget rest, nestingAll]
    by_cases hvalue : value.nesting ≤ budget
    · by_cases hrest : nestingAll rest ≤ budget
      · rw [if_pos hvalue, if_pos hrest, if_pos (Nat.max_le.mpr ⟨hvalue, hrest⟩)]
      · rw [if_neg hrest, if_neg fun h => hrest (Nat.max_le.mp h).2]
        rw [if_pos hvalue]
    · rw [if_neg hvalue, if_neg fun h => hvalue (Nat.max_le.mp h).1]

end

end Value

end squonk.serde_depth
