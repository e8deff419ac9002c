import Mathlib.Logic.Function.Basic
import Squonk.Interner.Keyword
import Squonk.Numbering.Table

/-!
# The interner

A symbol is the number of a slot: the keywords' slots come first, then those of the texts that
were interned, in their order. The counter is unbounded here; the source gives up on four
billion distinct texts.
-/

namespace squonk.interner

structure Symbol where
  raw : Nat
  pos : 0 < raw
  deriving DecidableEq

/-- The slot of the keyword a word spells in any case. -/
def lookup_keyword (word : String) : Option Nat :=
  KEYWORDS.findIdx? fun keyword => keyword.toList == word.toList.map Char.toLower

def keyword_symbol (index : Nat) : Symbol := ⟨index + 1, Nat.succ_pos index⟩

/-- The symbol of the `n`th interned text. -/
def dynamic_symbol (n : Nat) : Symbol := ⟨KEYWORD_COUNT + n + 1, Nat.succ_pos _⟩

theorem dynamic_symbol_injective {n m : Nat} (h : dynamic_symbol n = dynamic_symbol m) : n = m := by
  have hraw : KEYWORD_COUNT + n + 1 = KEYWORD_COUNT + m + 1 := congrArg Symbol.raw h
  omega

structure Interner where
  /-- Interned text to its symbol. -/
  map : String → Option Symbol
  /-- Interned text in the order of its symbols. -/
  strings : List String
  agree : ∀ s sym, map s = some sym ↔ ∃ n, strings[n]? = some s ∧ sym = dynamic_symbol n

namespace Interner

def new : Interner where
  map _ := none
  strings := []
  agree s sym := by simp

theorem map_none_iff (self : Interner) (s : String) : self.map s = none ↔ s ∉ self.strings := by
  rw [Option.eq_none_iff_forall_ne_some]
  constructor
  · intro h hs
    obtain ⟨n, hn⟩ := List.mem_iff_getElem?.mp hs
    exact h (dynamic_symbol n) ((self.agree s _).mpr ⟨n, hn, rfl⟩)
  · intro hs sym h
    obtain ⟨n, hn, -⟩ := (self.agree s sym).mp h
    exact hs (List.mem_of_getElem? hn)

/-- A text that has no symbol gets the next one. -/
def push (self : Interner) (s : String) (hnew : self.map s = none) : Interner where
  map := Function.update self.map s (some (dynamic_symbol self.strings.length))
  strings := self.strings ++ [s]
  agree s' sym := by
    have hs := (self.map_none_iff s).mp hnew
    by_cases heq : s' = s
    · subst heq
      rw [Function.update_self, Option.some.injEq]
      constructor
      · rintro rfl
        exact ⟨self.strings.length, by simp, rfl⟩
      · rintro ⟨n, hn, rfl⟩
        by_cases hlt : n < self.strings.length
        · rw [List.getElem?_append_left hlt] at hn
          exact absurd (List.mem_of_getElem? hn) hs
        · have hle : n < (self.strings ++ [s']).length := (List.getElem?_eq_some_iff.mp hn).1
          rw [List.length_append, List.length_singleton] at hle
          have heq : n = self.strings.length := by omega
          rw [heq]
    · rw [Function.update_of_ne heq, self.agree]
      constructor
      · rintro ⟨n, hn, rfl⟩
        have hlt : n < self.strings.length := (List.getElem?_eq_some_iff.mp hn).1
        exact ⟨n, by rw [List.getElem?_append_left hlt, hn], rfl⟩
      · rintro ⟨n, hn, rfl⟩
        by_cases hlt : n < self.strings.length
        · rw [List.getElem?_append_left hlt] at hn
          exact ⟨n, hn, rfl⟩
        · rw [List.getElem?_append_right (Nat.le_of_not_lt hlt), List.getElem?_singleton] at hn
          split at hn
          · exact absurd (Option.some.inj hn).symm heq
          · cases hn

def intern_dynamic (self : Interner) (s : String) : Symbol × Interner :=
  match h : self.map s with
  | some existing => (existing, self)
  | none => (dynamic_symbol self.strings.length, self.push s h)

def intern (self : Interner) (s : String) : Symbol × Interner :=
  match lookup_keyword s with
  | some keyword =>
    if KEYWORDS[keyword]? = some s then (keyword_symbol keyword, self) else self.intern_dynamic s
  | none => self.intern_dynamic s

def intern_nonkeyword (self : Interner) (s : String) : Symbol × Interner :=
  self.intern_dynamic s

def intern_keyword_ident (self : Interner) (keyword : Nat) (s : String) : Symbol × Interner :=
  if KEYWORDS[keyword]? = some s then (keyword_symbol keyword, self) else self.intern_dynamic s

end Interner

/-- Resolve a symbol against the keywords' slots and the interned texts. -/
def resolve_symbol (strings : List String) (sym : Symbol) : Option String :=
  if sym.raw ≤ KEYWORD_COUNT then KEYWORDS[sym.raw - 1]? else strings[sym.raw - KEYWORD_COUNT - 1]?

/-! ## Keywords -/

/-- A word is looked up as the keyword it spells. -/
theorem lookup_canonical {s : String} (hs : s ∈ KEYWORDS) :
    ∃ keyword, lookup_keyword s = some keyword ∧ KEYWORDS[keyword]? = some s := by
  have hlower := keywords_lower s hs
  unfold lookup_keyword
  rw [hlower]
  cases hfind : KEYWORDS.findIdx? fun keyword => keyword.toList == s.toList with
  | none =>
    have hnone := List.findIdx?_eq_none_iff.mp hfind s hs
    rw [beq_self_eq_true] at hnone
    cases hnone
  | some n =>
    obtain ⟨hlt, hmatch, -⟩ := List.findIdx?_eq_some_iff_getElem.mp hfind
    refine ⟨n, rfl, ?_⟩
    rw [beq_iff_eq] at hmatch
    rw [List.getElem?_eq_getElem hlt, Option.some.injEq]
    exact String.toList_injective hmatch

/-- A word that spells its keyword in another way is no keyword's canonical spelling. -/
theorem plain_of_lookup {s : String} {keyword : Nat} (h : lookup_keyword s = some keyword)
    (hne : KEYWORDS[keyword]? ≠ some s) : s ∉ KEYWORDS := by
  intro hmem
  obtain ⟨k, hk, htext⟩ := lookup_canonical hmem
  rw [h] at hk
  obtain rfl := Option.some.inj hk
  exact hne htext

theorem plain_of_lookup_none {s : String} (h : lookup_keyword s = none) : s ∉ KEYWORDS := by
  intro hmem
  obtain ⟨k, hk, -⟩ := lookup_canonical hmem
  rw [h] at hk
  cases hk

/-! ## Resolving -/

theorem resolve_keyword {n : Nat} {s : String} (h : KEYWORDS[n]? = some s)
    (strings : List String) : resolve_symbol strings (keyword_symbol n) = some s := by
  have hlt : n < KEYWORDS.length := (List.getElem?_eq_some_iff.mp h).1
  have hle : n + 1 ≤ KEYWORD_COUNT := hlt
  rw [resolve_symbol, keyword_symbol, if_pos hle]
  exact h

theorem resolve_dynamic (strings : List String) (n : Nat) :
    resolve_symbol strings (dynamic_symbol n) = strings[n]? := by
  have hgt : ¬ KEYWORD_COUNT + n + 1 ≤ KEYWORD_COUNT := by omega
  have hindex : KEYWORD_COUNT + n + 1 - KEYWORD_COUNT - 1 = n := by omega
  rw [resolve_symbol, dynamic_symbol, if_neg hgt, hindex]

/-- A symbol is a keyword's or that of an interned text. -/
theorem symbol_cases (sym : Symbol) :
    (∃ n, n < KEYWORD_COUNT ∧ sym = keyword_symbol n) ∨ ∃ n, sym = dynamic_symbol n := by
  obtain ⟨raw, hpos⟩ := sym
  by_cases hle : raw ≤ KEYWORD_COUNT
  · refine Or.inl ⟨raw - 1, by omega, ?_⟩
    have hraw : raw - 1 + 1 = raw := by omega
    simp only [keyword_symbol, hraw]
  · refine Or.inr ⟨raw - KEYWORD_COUNT - 1, ?_⟩
    have hraw : KEYWORD_COUNT + (raw - KEYWORD_COUNT - 1) + 1 = raw := by omega
    simp only [dynamic_symbol, hraw]

/-- A symbol that resolves goes on resolving to the same text. -/
theorem resolve_of_start {strings strings' : List String} (h : strings <+: strings')
    {sym : Symbol} {s : String} (hs : resolve_symbol strings sym = some s) :
    resolve_symbol strings' sym = some s := by
  unfold resolve_symbol at hs ⊢
  split at hs
  · rename_i hle
    rw [if_pos hle]
    exact hs
  · rename_i hgt
    rw [if_neg hgt]
    obtain ⟨behind, rfl⟩ := h
    have hlt := (List.getElem?_eq_some_iff.mp hs).1
    rw [List.getElem?_append_left hlt]
    exact hs

/-- The symbols of a table are as many as its texts exactly when no text has two slots. -/
theorem resolve_injective_iff {strings : List String} (hstrings : strings.Nodup) :
    (∀ a b s, resolve_symbol strings a = some s → resolve_symbol strings b = some s → a = b) ↔
      ∀ s ∈ strings, s ∉ KEYWORDS := by
  constructor
  · intro hinjective s hs hkeyword
    obtain ⟨n, hn⟩ := List.mem_iff_getElem?.mp hs
    obtain ⟨m, hm⟩ := List.mem_iff_getElem?.mp hkeyword
    have hlt : m < KEYWORDS.length := (List.getElem?_eq_some_iff.mp hm).1
    have heq := hinjective (keyword_symbol m) (dynamic_symbol n) s (resolve_keyword hm strings)
      (by rw [resolve_dynamic, hn])
    have hraw : m + 1 = KEYWORD_COUNT + n + 1 := congrArg Symbol.raw heq
    have hcount : KEYWORD_COUNT = KEYWORDS.length := rfl
    omega
  · intro hplain a b s ha hb
    have hkeyword : ∀ {n}, n < KEYWORD_COUNT → resolve_symbol strings (keyword_symbol n) = some s →
        KEYWORDS[n]? = some s := by
      intro n hn h
      rw [resolve_keyword (List.getElem?_eq_getElem (show n < KEYWORDS.length from hn))] at h
      rw [← h]
      exact List.getElem?_eq_getElem hn
    have hindex : ∀ {texts : List String} {n m : Nat}, texts.Nodup → texts[n]? = some s →
        texts[m]? = some s → n = m := by
      intro texts n m hnodup hn hm
      have hlt := (List.getElem?_eq_some_iff.mp hn).1
      exact (List.getElem?_inj hlt hnodup).mp (hn.trans hm.symm)
    rcases symbol_cases a with ⟨n, hn, rfl⟩ | ⟨n, rfl⟩ <;>
      rcases symbol_cases b with ⟨m, hm, rfl⟩ | ⟨m, rfl⟩
    · rw [hindex keywords_nodup (hkeyword hn ha) (hkeyword hm hb)]
    · rw [resolve_dynamic] at hb
      exact absurd (List.mem_of_getElem? (hkeyword hn ha)) (hplain s (List.mem_of_getElem? hb))
    · rw [resolve_dynamic] at ha
      exact absurd (List.mem_of_getElem? (hkeyword hm hb)) (hplain s (List.mem_of_getElem? ha))
    · rw [resolve_dynamic] at ha hb
      rw [hindex hstrings ha hb]

namespace Interner

theorem strings_nodup (self : Interner) : self.strings.Nodup := by
  rw [List.nodup_iff_getElem?_ne_getElem?]
  intro n m hnm hm heq
  have htext : self.strings[m]? = some self.strings[m] := List.getElem?_eq_getElem hm
  have hsym := (self.agree _ _).mpr ⟨m, htext, rfl⟩
  have hsym' := (self.agree _ _).mpr ⟨n, heq.trans htext, rfl⟩
  rw [hsym] at hsym'
  have hmn := dynamic_symbol_injective (Option.some.inj hsym')
  omega

theorem intern_dynamic_strings (self : Interner) (s : String) :
    (self.intern_dynamic s).2.strings = numbering.insert self.strings s := by
  have hmem := self.map_none_iff s
  unfold intern_dynamic numbering.insert
  split
  · rename_i existing h
    rw [if_pos]
    by_contra hs
    rw [hmem.mpr hs] at h
    cases h
  · rename_i h
    rw [if_neg (hmem.mp h)]
    rfl

/-- An interned text is what its symbol resolves to. -/
theorem intern_dynamic_resolves (self : Interner) (s : String) :
    resolve_symbol (self.intern_dynamic s).2.strings (self.intern_dynamic s).1 = some s := by
  unfold intern_dynamic
  split
  · rename_i existing h
    obtain ⟨n, hn, rfl⟩ := (self.agree s existing).mp h
    rw [resolve_dynamic]
    exact hn
  · rename_i h
    rw [resolve_dynamic]
    simp [push]

end Interner

/-! ## The names of a parse -/

/-- What the tokenizer settled about a name. -/
inductive TokenKind
  | Word
  | Keyword (keyword : Nat)
  /-- A quoted name, or one that is part of a larger token. -/
  | Other
  deriving DecidableEq

/-- A name to intern. The tokenizer looked it up, if it is a token of its own. -/
structure Name where
  kind : TokenKind
  text : String
  word : kind = .Word → lookup_keyword text = none
  keyword : ∀ k, kind = .Keyword k → lookup_keyword text = some k

def Interner.intern_identifier (self : Interner) (name : Name) : Symbol × Interner :=
  match name.kind with
  | .Word => self.intern_nonkeyword name.text
  | .Keyword keyword => self.intern_keyword_ident keyword name.text
  | .Other => self.intern name.text

/-- What interning a name can do. -/
theorem intern_identifier_cases (self : Interner) (name : Name) :
    (∃ keyword, KEYWORDS[keyword]? = some name.text ∧
        self.intern_identifier name = (keyword_symbol keyword, self)) ∨
      name.text ∉ KEYWORDS ∧ self.intern_identifier name = self.intern_dynamic name.text := by
  unfold Interner.intern_identifier
  cases hkind : name.kind with
  | Word => exact Or.inr ⟨plain_of_lookup_none (name.word hkind), rfl⟩
  | Keyword k =>
    simp only [Interner.intern_keyword_ident]
    by_cases htext : KEYWORDS[k]? = some name.text
    · exact Or.inl ⟨k, htext, by rw [if_pos htext]⟩
    · exact Or.inr ⟨plain_of_lookup (name.keyword k hkind) htext, by rw [if_neg htext]⟩
  | Other =>
    simp only [Interner.intern]
    cases hlookup : lookup_keyword name.text with
    | none => exact Or.inr ⟨plain_of_lookup_none hlookup, rfl⟩
    | some k =>
      simp only
      by_cases htext : KEYWORDS[k]? = some name.text
      · exact Or.inl ⟨k, htext, by rw [if_pos htext]⟩
      · exact Or.inr ⟨plain_of_lookup hlookup htext, by rw [if_neg htext]⟩

/-- The interner behind the names of a parse, those of its failed attempts included. -/
def Interner.run (self : Interner) : List Name → Interner
  | [] => self
  | name :: names => (self.intern_identifier name).2.run names

/-- The symbols that interning the names in turn hands out. -/
def Interner.minted (self : Interner) : List Name → List Symbol
  | [] => []
  | name :: names =>
    (self.intern_identifier name).1 :: (self.intern_identifier name).2.minted names

theorem prefix_intern_identifier (self : Interner) (name : Name) :
    self.strings <+: (self.intern_identifier name).2.strings := by
  rcases intern_identifier_cases self name with ⟨k, -, heq⟩ | ⟨-, heq⟩
  · have hsame : (self.intern_identifier name).2.strings = self.strings := by rw [heq]
    exact hsame ▸ List.prefix_refl _
  · rw [heq, Interner.intern_dynamic_strings]
    exact numbering.prefix_insert _ _

theorem prefix_run (self : Interner) (names : List Name) :
    self.strings <+: (self.run names).strings := by
  induction names generalizing self with
  | nil => exact List.prefix_refl _
  | cons name names ih => exact (prefix_intern_identifier self name).trans (ih _)

/-- Every symbol a parse was given resolves at its end. -/
theorem minted_resolves (self : Interner) (names : List Name) :
    ∀ sym ∈ self.minted names, (resolve_symbol (self.run names).strings sym).isSome := by
  induction names generalizing self with
  | nil => intro sym hsym; cases hsym
  | cons name names ih =>
    intro sym hsym
    rcases List.mem_cons.mp hsym with rfl | hsym
    · have hresolves : resolve_symbol (self.intern_identifier name).2.strings
          (self.intern_identifier name).1 = some name.text := by
        rcases intern_identifier_cases self name with ⟨k, hk, heq⟩ | ⟨-, heq⟩
        · rw [heq]
          exact resolve_keyword hk _
        · rw [heq]
          exact self.intern_dynamic_resolves name.text
      exact Option.isSome_of_eq_some (resolve_of_start (prefix_run _ names) hresolves)
    · exact ih _ sym hsym

/-- No keyword is interned. -/
theorem run_plain (self : Interner) (names : List Name) (h : ∀ s ∈ self.strings, s ∉ KEYWORDS) :
    ∀ s ∈ (self.run names).strings, s ∉ KEYWORDS := by
  induction names generalizing self with
  | nil => exact h
  | cons name names ih =>
    refine ih _ fun s hs => ?_
    rcases intern_identifier_cases self name with ⟨k, -, heq⟩ | ⟨hplain, heq⟩
    · rw [heq] at hs
      exact h s hs
    · rw [heq, Interner.intern_dynamic_strings, numbering.insert] at hs
      split at hs
      · exact h s hs
      · rcases List.mem_append.mp hs with hs | hs
        · exact h s hs
        · rw [List.mem_singleton] at hs
          rw [hs]
          exact hplain

/-! ## Rebuilding a table -/

/-- Intern the texts of a table in their order. -/
def rebuild (texts : List String) : Interner :=
  texts.foldl (fun self text => (self.intern_nonkeyword text).2) .new

theorem rebuild_strings (texts : List String) :
    (rebuild texts).strings = numbering.insertAll [] texts := by
  have hfold : ∀ self : Interner,
      (texts.foldl (fun self text => (self.intern_nonkeyword text).2) self).strings =
        numbering.insertAll self.strings texts := by
    induction texts with
    | nil => intro self; rfl
    | cons text texts ih =>
      intro self
      rw [List.foldl_cons, ih, Interner.intern_nonkeyword, Interner.intern_dynamic_strings]
      rfl
  exact hfold .new

theorem rebuild_of_nodup {texts : List String} (h : texts.Nodup) :
    (rebuild texts).strings = texts := by
  rw [rebuild_strings, numbering.insertAll_of_nodup (by simpa using h), List.nil_append]

/-- A rebuilt table is as long as the one it is rebuilt from only if it is that table. -/
theorem rebuild_length_iff (texts : List String) :
    (rebuild texts).strings.length = texts.length ↔ texts.Nodup := by
  have hlength := @numbering.length_insertAll_eq_iff _ _ [] texts List.nodup_nil
  rw [rebuild_strings]
  simpa using hlength

end squonk.interner
