import Squonk.Interner.Basic
import Squonk.Numbering.Classes

/-!
# Folded symbols

The table that gives two symbols of a frozen interner the same class when their texts fold to the
same text.
-/

namespace squonk.dialect

/-- How a dialect folds its unquoted identifiers. -/
inductive Casing | Upper | Lower | Preserve
  deriving DecidableEq

def fold_identifier_upper (identifier : String) : String :=
  if identifier.toList.any Char.isLower then String.ofList (identifier.toList.map Char.toUpper)
  else identifier

def fold_identifier_lower (identifier : String) : String :=
  if identifier.toList.any Char.isUpper then String.ofList (identifier.toList.map Char.toLower)
  else identifier

def Casing.fold_identifier : Casing → String → String
  | .Upper => fold_identifier_upper
  | .Lower => fold_identifier_lower
  | .Preserve => id

end squonk.dialect

open squonk.dialect

namespace squonk.interner

structure FrozenResolver where
  strings : List String

def Interner.freeze (self : Interner) : FrozenResolver := ⟨self.strings⟩

def FrozenResolver.try_resolve (self : FrozenResolver) (sym : Symbol) : Option String :=
  resolve_symbol self.strings sym

structure FoldedSymbol where
  raw : Nat
  deriving DecidableEq

structure FoldedSymbols where
  folded : List FoldedSymbol

/-- The classes of the symbols, where `ids` are given out and `next_id` is the first free one. -/
def build_run (strings : List String) (casing : Casing) :
    List Symbol → (String → Option Nat) → Nat → Option (List FoldedSymbol)
  | [], _, _ => some []
  | sym :: syms, ids, next_id => do
    let text ← resolve_symbol strings sym
    let key := casing.fold_identifier text
    match ids key with
    | some id => return ⟨id⟩ :: (← build_run strings casing syms ids next_id)
    | none =>
      return ⟨next_id⟩ :: (← build_run strings casing syms
        (Function.update ids key (some next_id)) (next_id + 1))

/-- The symbols of a table in their order, those of the keywords first. -/
def all_symbols (strings : List String) : List Symbol :=
  (List.range (KEYWORD_COUNT + strings.length)).map fun n => ⟨n + 1, Nat.succ_pos n⟩

/-- The table for a dialect, of which it reads the casing only. -/
def FoldedSymbols.build (strings : List String) (casing : Casing) : Option FoldedSymbols :=
  (build_run strings casing (all_symbols strings) (fun _ => none) 1).map FoldedSymbols.mk

def FrozenResolver.fold_symbols (self : FrozenResolver) (casing : Casing) :
    Option FoldedSymbols :=
  FoldedSymbols.build self.strings casing

def FoldedSymbols.fold (self : FoldedSymbols) (sym : Symbol) : Option FoldedSymbol :=
  self.folded[sym.raw - 1]?

/-! ## The classes -/

variable {strings : List String} {casing : Casing}

/-- The loop numbers the folded texts. -/
theorem build_run_eq (syms : List Symbol) {texts : List String} (ids : String → Option Nat)
    (next_id : Nat) (h : syms.map (resolve_symbol strings) = texts.map some) :
    build_run strings casing syms ids next_id =
      some ((numbering.classes (texts.map casing.fold_identifier) ids next_id).map
        FoldedSymbol.mk) := by
  induction syms generalizing texts ids next_id with
  | nil =>
    cases texts with
    | nil => rfl
    | cons text texts => cases h
  | cons sym syms ih =>
    cases texts with
    | nil => cases h
    | cons text texts =>
      rw [List.map_cons, List.map_cons, List.cons.injEq] at h
      rw [build_run, h.1, List.map_cons, numbering.classes]
      simp only [Option.bind_eq_bind, Option.bind_some]
      cases ids (casing.fold_identifier text) with
      | some id =>
        simp only
        rw [ih ids next_id h.2]
        rfl
      | none =>
        simp only
        rw [ih _ _ h.2]
        rfl

/-- The keywords and the interned texts are one table. -/
theorem resolve_symbol_eq (strings : List String) (sym : Symbol) :
    resolve_symbol strings sym = (KEYWORDS ++ strings)[sym.raw - 1]? := by
  have hpos := sym.pos
  have hcount : KEYWORD_COUNT = KEYWORDS.length := rfl
  unfold resolve_symbol
  split
  · rw [List.getElem?_append_left (by omega)]
  · have hindex : sym.raw - 1 - KEYWORDS.length = sym.raw - KEYWORD_COUNT - 1 := by omega
    rw [List.getElem?_append_right (by omega), hindex]

theorem resolve_all_symbols (strings : List String) :
    (all_symbols strings).map (resolve_symbol strings) = (KEYWORDS ++ strings).map some := by
  have hlength : (KEYWORDS ++ strings).length = KEYWORD_COUNT + strings.length :=
    List.length_append
  refine List.ext_getElem? fun n => ?_
  simp only [all_symbols, List.map_map, List.getElem?_map]
  by_cases hn : n < KEYWORD_COUNT + strings.length
  · rw [List.getElem?_range hn, Option.map_some, Function.comp_apply, resolve_symbol_eq,
      Nat.add_sub_cancel, List.getElem?_eq_getElem (by omega)]
    rfl
  · rw [List.getElem?_eq_none (by simpa using hn), List.getElem?_eq_none (by omega)]
    rfl

/-- Two symbols are in one class exactly when their texts fold to the same text. -/
theorem build_fold_iff (strings : List String) (casing : Casing) :
    ∃ folded, FoldedSymbols.build strings casing = some folded ∧
      ∀ a b s t, resolve_symbol strings a = some s → resolve_symbol strings b = some t →
        ∃ f g, folded.fold a = some f ∧ folded.fold b = some g ∧
          (f = g ↔ casing.fold_identifier s = casing.fold_identifier t) := by
  have hrun := @build_run_eq strings casing (all_symbols strings) _ (fun _ => none) 1
    (resolve_all_symbols strings)
  unfold FoldedSymbols.build
  rw [hrun]
  refine ⟨_, rfl, fun a b s t ha hb => ?_⟩
  have hkey {sym : Symbol} {text : String} (h : resolve_symbol strings sym = some text) :
      ((KEYWORDS ++ strings).map casing.fold_identifier)[sym.raw - 1]? =
        some (casing.fold_identifier text) := by
    rw [List.getElem?_map, ← resolve_symbol_eq, h]
    rfl
  have hfold {sym : Symbol} {text : String} (h : resolve_symbol strings sym = some text) :
      ∃ id, (numbering.classes ((KEYWORDS ++ strings).map casing.fold_identifier)
        (fun _ => none) 1)[sym.raw - 1]? = some id := by
    have hlt := (List.getElem?_eq_some_iff.mp (hkey h)).1
    exact ⟨_, List.getElem?_eq_getElem (by rwa [numbering.length_classes])⟩
  obtain ⟨f, hf⟩ := hfold ha
  obtain ⟨g, hg⟩ := hfold hb
  have hiff := numbering.classes_eq_iff 1 (hkey ha) (hkey hb)
  rw [hf, hg, Option.some.injEq] at hiff
  refine ⟨⟨f⟩, ⟨g⟩, ?_, ?_, ?_⟩
  · rw [FoldedSymbols.fold, List.getElem?_map, hf]
    rfl
  · rw [FoldedSymbols.fold, List.getElem?_map, hg]
    rfl
  · rw [FoldedSymbol.mk.injEq]
    exact hiff

end squonk.interner
