import Mathlib.Data.List.Basic

/-!
# The letters of literals

A text that is written out in a program is the string of some characters. Read off the literal the
characters cost nothing, while the kernel takes long to decode them out of the bytes of a string.
-/

namespace letters

/-- Texts with the characters that each is the string of. -/
inductive Letters : List String → List (List Char) → Prop
  | nil : Letters [] []
  | cons {text : String} {word : List Char} {texts : List String} {words : List (List Char)} :
      text = String.ofList word → Letters texts words → Letters (text :: texts) (word :: words)

theorem Letters.map_toList {texts : List String} {words : List (List Char)}
    (h : Letters texts words) : texts.map String.toList = words := by
  induction h with
  | nil => rfl
  | cons hword _ ih => rw [List.map_cons, hword, String.toList_ofList, ih]

/-- What all the words pass, the characters of each text pass. -/
theorem Letters.all {texts : List String} {words : List (List Char)} {p : List Char → Bool}
    (h : Letters texts words) (hall : words.all p = true) :
    ∀ text ∈ texts, p text.toList = true := by
  intro text hmem
  rw [← h.map_toList] at hall
  exact List.all_eq_true.mp hall _ (List.mem_map_of_mem hmem)

end letters
