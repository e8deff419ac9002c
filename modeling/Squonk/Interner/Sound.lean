import Squonk.Interner.Folded

/-!
# What interning a text means

Over a run of calls the symbols stand for the texts: equal texts have equal symbols and no others
do, and a symbol goes on resolving to its text.
-/

open squonk.dialect

namespace squonk.interner

/-- A call on an interner, with what its caller has to have established. -/
inductive Call
  | intern (s : String)
  | intern_nonkeyword (s : String) (plain : s ∉ KEYWORDS)
  | intern_keyword_ident (keyword : Nat) (s : String) (found : lookup_keyword s = some keyword)

def Call.text : Call → String
  | .intern s => s
  | .intern_nonkeyword s _ => s
  | .intern_keyword_ident _ s _ => s

namespace Interner

def call (self : Interner) : Call → Symbol × Interner
  | .intern s => self.intern s
  | .intern_nonkeyword s _ => self.intern_nonkeyword s
  | .intern_keyword_ident keyword s _ => self.intern_keyword_ident keyword s

/-- The symbols that the calls return in turn, and the interner behind them. -/
def calls (self : Interner) : List Call → List Symbol × Interner
  | [] => ([], self)
  | c :: cs =>
    let (sym, next) := self.call c
    let (syms, last) := next.calls cs
    (sym :: syms, last)

/-- Whichever call it is, a keyword has its fixed symbol and another text a dynamic one. -/
theorem call_cases (self : Interner) (c : Call) :
    (∃ keyword, KEYWORDS[keyword]? = some c.text ∧
        self.call c = (keyword_symbol keyword, self)) ∨
      c.text ∉ KEYWORDS ∧ self.call c = self.intern_dynamic c.text := by
  cases c with
  | intern s =>
    simp only [call, Interner.intern, Call.text]
    cases hlookup : lookup_keyword s with
    | none => exact .inr ⟨plain_of_lookup_none hlookup, rfl⟩
    | some keyword =>
      by_cases htext : KEYWORDS[keyword]? = some s
      · exact .inl ⟨keyword, htext, if_pos htext⟩
      · exact .inr ⟨plain_of_lookup hlookup htext, if_neg htext⟩
  | intern_nonkeyword s plain => exact .inr ⟨plain, rfl⟩
  | intern_keyword_ident keyword s found =>
    by_cases htext : KEYWORDS[keyword]? = some s
    · exact .inl ⟨keyword, htext, if_pos htext⟩
    · exact .inr ⟨plain_of_lookup found htext, if_neg htext⟩

/-- No keyword is interned, so no text has two symbols. -/
def Plain (self : Interner) : Prop := ∀ s ∈ self.strings, s ∉ KEYWORDS

theorem plain_new : Interner.new.Plain := fun _ hs => absurd hs List.not_mem_nil

theorem call_plain {self : Interner} (h : self.Plain) (c : Call) : (self.call c).2.Plain := by
  obtain ⟨keyword, -, heq⟩ | ⟨hplain, heq⟩ := self.call_cases c
  · rw [heq]
    exact h
  · intro s hs
    rw [heq, intern_dynamic_strings, numbering.insert] at hs
    split at hs
    · exact h s hs
    · rcases List.mem_append.mp hs with hs | hs
      · exact h s hs
      · rw [List.mem_singleton.mp hs]
        exact hplain

theorem call_resolves (self : Interner) (c : Call) :
    resolve_symbol (self.call c).2.strings (self.call c).1 = some c.text := by
  obtain ⟨keyword, htext, heq⟩ | ⟨-, heq⟩ := self.call_cases c
  · rw [heq]
    exact resolve_keyword htext self.strings
  · rw [heq]
    exact self.intern_dynamic_resolves c.text

/-- A symbol is one of the fixed ones exactly when its text is a keyword. -/
theorem call_keyword_iff (self : Interner) (c : Call) :
    (self.call c).1.raw ≤ KEYWORD_COUNT ↔ c.text ∈ KEYWORDS := by
  obtain ⟨keyword, htext, heq⟩ | ⟨hplain, heq⟩ := self.call_cases c
  · have hlt : keyword < KEYWORD_COUNT := (List.getElem?_eq_some_iff.mp htext).1
    rw [heq]
    exact ⟨fun _ => List.mem_of_getElem? htext, fun _ => hlt⟩
  · have hresolves := self.intern_dynamic_resolves c.text
    rw [heq]
    refine ⟨fun hle => ?_, fun hmem => absurd hmem hplain⟩
    rw [resolve_symbol, if_pos hle] at hresolves
    exact List.mem_of_getElem? hresolves

theorem prefix_call (self : Interner) (c : Call) :
    self.strings <+: (self.call c).2.strings := by
  obtain ⟨keyword, -, heq⟩ | ⟨-, heq⟩ := self.call_cases c
  · have hsame : (self.call c).2 = self := congrArg Prod.snd heq
    exact ⟨[], by rw [hsame, List.append_nil]⟩
  · rw [heq, intern_dynamic_strings]
    exact numbering.prefix_insert _ _

theorem calls_plain {self : Interner} (h : self.Plain) (cs : List Call) :
    (self.calls cs).2.Plain := by
  induction cs generalizing self with
  | nil => exact h
  | cons c cs ih => exact ih (call_plain h c)

theorem prefix_calls (self : Interner) (cs : List Call) :
    self.strings <+: (self.calls cs).2.strings := by
  induction cs generalizing self with
  | nil => exact List.prefix_rfl
  | cons c cs ih => exact (self.prefix_call c).trans (ih _)

theorem length_calls (self : Interner) (cs : List Call) :
    (self.calls cs).1.length = cs.length := by
  induction cs generalizing self with
  | nil => rfl
  | cons c cs ih => exact congrArg (· + 1) (ih _)

/-- A symbol resolves to its text in the state behind its call and in every later one. -/
theorem calls_resolves (self : Interner) (cs : List Call) {i n : Nat} {sym : Symbol} {c : Call}
    (hsym : (self.calls cs).1[i]? = some sym) (hcall : cs[i]? = some c) (hn : i < n) :
    resolve_symbol (self.calls (cs.take n)).2.strings sym = some c.text := by
  induction cs generalizing self i n with
  | nil => cases hcall
  | cons c' cs ih =>
    obtain ⟨n, rfl⟩ := Nat.exists_eq_add_of_le' (Nat.lt_of_le_of_lt (Nat.zero_le i) hn)
    rw [List.take_succ_cons]
    cases i with
    | zero =>
      obtain rfl : c' = c := Option.some.inj hcall
      obtain rfl : (self.call c').1 = sym := Option.some.inj hsym
      exact resolve_of_start ((self.call c').2.prefix_calls _) (self.call_resolves c')
    | succ i => exact ih (self.call c').2 hsym hcall (Nat.lt_of_succ_lt_succ hn)

theorem calls_keyword_iff (self : Interner) (cs : List Call) {i : Nat} {sym : Symbol} {c : Call}
    (hsym : (self.calls cs).1[i]? = some sym) (hcall : cs[i]? = some c) :
    sym.raw ≤ KEYWORD_COUNT ↔ c.text ∈ KEYWORDS := by
  induction cs generalizing self i with
  | nil => cases hcall
  | cons c' cs ih =>
    cases i with
    | zero =>
      obtain rfl : c' = c := Option.some.inj hcall
      obtain rfl : (self.call c').1 = sym := Option.some.inj hsym
      exact self.call_keyword_iff c'
    | succ i => exact ih (self.call c').2 hsym hcall

end Interner

/-- What a run of calls hands out: one symbol a text, each of which resolves to its text from its
    call on and in the frozen table, the keywords' symbols apart from the others, and classes of
    symbols whose texts fold to the same text. -/
theorem calls_sound (cs : List Call) (casing : Casing) :
    let symbols := (Interner.new.calls cs).1
    let frozen := (Interner.new.calls cs).2.freeze
    symbols.length = cs.length ∧
      (∀ (i j : Nat) (a b : Symbol) (c d : Call), symbols[i]? = some a → symbols[j]? = some b → cs[i]? = some c →
        cs[j]? = some d → (a = b ↔ c.text = d.text)) ∧
      (∀ (i : Nat) (a : Symbol) (c : Call), symbols[i]? = some a → cs[i]? = some c →
        (∀ n, i < n →
          resolve_symbol (Interner.new.calls (cs.take n)).2.strings a = some c.text) ∧
        frozen.try_resolve a = some c.text ∧
        (a.raw ≤ KEYWORD_COUNT ↔ c.text ∈ KEYWORDS)) ∧
      (∀ n m, n < KEYWORD_COUNT → keyword_symbol n ≠ dynamic_symbol m) ∧
      ∃ folded, frozen.fold_symbols casing = some folded ∧
        ∀ a b s t, frozen.try_resolve a = some s → frozen.try_resolve b = some t →
          ∃ f g, folded.fold a = some f ∧ folded.fold b = some g ∧
            (f = g ↔ casing.fold_identifier s = casing.fold_identifier t) := by
  intro symbols frozen
  have hfrozen {i : Nat} {a : Symbol} {c : Call} (ha : symbols[i]? = some a)
      (hc : cs[i]? = some c) : frozen.try_resolve a = some c.text := by
    have hlt := (List.getElem?_eq_some_iff.mp hc).1
    have hresolves := Interner.new.calls_resolves cs ha hc hlt
    rw [List.take_length] at hresolves
    exact hresolves
  have hinjective := (resolve_injective_iff (Interner.new.calls cs).2.strings_nodup).mpr
    (Interner.calls_plain Interner.plain_new cs)
  refine ⟨Interner.new.length_calls cs, fun i j a b c d ha hb hc hd => ?_,
    fun i a c ha hc => ⟨fun n hn => Interner.new.calls_resolves cs ha hc hn, hfrozen ha hc,
      Interner.new.calls_keyword_iff cs ha hc⟩, fun n m hn heq => ?_,
    build_fold_iff _ casing⟩
  · constructor
    · rintro rfl
      exact Option.some.inj ((hfrozen ha hc).symm.trans (hfrozen hb hd))
    · intro htext
      exact hinjective a b d.text (by rw [← htext]; exact hfrozen ha hc) (hfrozen hb hd)
  · have hraw : n + 1 = KEYWORD_COUNT + m + 1 := congrArg Symbol.raw heq
    omega

end squonk.interner
