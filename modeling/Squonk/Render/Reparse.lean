import Squonk.Render.Fits
import Squonk.Render.Tokens
import Squonk.Render.Unique

/-!
# Reading canonical text back

The canonical text of a tree that the parser has built is read back as that tree exactly when the
written expression fits and no sign fuses with another.
-/

open squonk.ast squonk.tokenizer squonk.dialect squonk.precedence squonk.parser.expr climbing

namespace squonk.render

variable {features : FeatureSet} {ranks : List BindingPower}

/-- The parser builds the tree from some source, at some power and recursion limit. -/
def Produces (features : FeatureSet) (e : Expr) : Prop :=
  ∃ source ts depth min_bp rest, tokenize features source = some ts ∧
    parse_expr_bp features depth min_bp ts = some (e, rest)

/-- The text is one expression with the tree `e`, at some recursion limit. -/
def ParsesTo (features : FeatureSet) (text : List Char) (e : Expr) : Prop :=
  ∃ ts depth, tokenize features text = some ts ∧ parse_expr features depth ts = some (e, [])

/-- The canonical text of the tree is read back as the tree. -/
def RoundTrips (features : FeatureSet) (e : Expr) : Prop :=
  ParsesTo features (expr features.binding_powers e) e

theorem tree_eq_some {read : Option (Written × List Token)} {e : Expr} {rest : List Token}
    (h : tree features read = some (e, rest)) :
    ∃ c, read = some (c, rest) ∧ erase features c = e := by
  obtain ⟨⟨c, rest'⟩, hread, heq⟩ := Option.map_eq_some_iff.mp h
  obtain ⟨hc, rfl⟩ := Prod.mk.inj heq
  exact ⟨c, hread, hc⟩

/-- A tree of operators that the parser builds has operators and atoms of the dialect only. -/
theorem readable_of_produces (hregular : Regular features) {e : Expr} (h : Produces features e)
    (hoperators : Operators e) : Readable features e := by
  obtain ⟨source, ts, depth, min, rest, htokens, hparse⟩ := h
  rw [parse_expr_bp_eq hregular] at hparse
  obtain ⟨c, hread, rfl⟩ := tree_eq_some hparse
  refine readable_of_taken (Reader.taken_of_climb (reader_faithful features) hread) ?_ hoperators
  intro t ht
  apply scanned_of_tokenize htokens
  have hsplit : ts = c.tokens lexicon ++ rest :=
    Reader.climb_tokens (reader_faithful features) hread
  rw [hsplit]
  exact List.mem_append_left rest ht

/-! ## Tokens -/

theorem steady_of_canonical {c : Written} (h : Canonical features c) :
    (reader features).Steady c := by
  induction c with
  | atom a => exact trivial
  | group c ih => exact ih h
  | pre p c ih => exact ih h.2
  | inf l o r ihl ihr => exact ⟨ihl h.2.1, ihr h.2.2⟩
  | mix => exact absurd h id
  | post => exact absurd h id

theorem firm_behind_of_canonical (hgrouping : Grouping features ranks) {c : Written}
    (h : Canonical features c) {rest : List Token} (hafter : After features rest) :
    (reader features).FirmBehind c rest := by
  induction c generalizing rest with
  | atom a => exact hafter.firm
  | group c ih => exact ⟨ih h (after_rparen rest), hafter.firm⟩
  | pre p c ih => exact ih h.2 hafter
  | inf l o r ihl ihr =>
    obtain ⟨⟨op, rfl, hadmits, -⟩, hl, hr⟩ := h
    exact ⟨ihl hl ( after_infix hgrouping hadmits _), ihr hr hafter⟩
  | mix => exact absurd h id
  | post => exact absurd h id

/-- The tokens of a canonical expression are read back as its tree exactly if it fits, at every
    limit that it does not nest beyond. -/
theorem parse_canonical_iff (hgrouping : Grouping features ranks) {c : Written}
    (h : Canonical features c) (depth : Nat) :
    parse_expr features depth (c.tokens lexicon) = some (erase features c, []) ↔
      Fits features c ∧ c.height ≤ depth := by
  have hfaithful := reader_faithful features
  have hnil : ∀ f rest, (reader features).peek [] ≠ some (f, rest) := by
    intro f rest hpeek
    rw [hfaithful.peek_nil] at hpeek
    cases hpeek
  have hiff := @Reader.climb_tokens_iff _ _ _ _ _ _ (reader features) hfaithful c
    (steady_of_canonical h) depth 0 [] (firm_behind_of_canonical hgrouping h after_nil)
  rw [List.append_nil, grouped_iff_fits hgrouping h after_nil] at hiff
  rw [parse_expr, parse_expr_bp_eq hgrouping.toRegular]
  constructor
  · intro hparse
    obtain ⟨d, hread, herase⟩ := tree_eq_some hparse
    have htokens : c.tokens lexicon = d.tokens lexicon := by
      have hsplit := Reader.climb_tokens hfaithful hread
      rwa [List.append_nil] at hsplit
    have hshaped : Shaped features d := by
      apply shaped_of_taken (Reader.taken_of_climb hfaithful hread)
      rw [herase]
      exact operators_of_canonical h
    obtain rfl := eq_of_erase_eq h hshaped herase.symm htokens
    obtain ⟨hheight, -, hfits, -⟩ := hiff.mp hread
    exact ⟨hfits, hheight⟩
  · rintro ⟨hfits, hheight⟩
    have hread := hiff.mpr ⟨hheight, Reader.leftSpine_zero c, hfits,
      fun f rest hpeek => absurd hpeek (hnil f rest),
      fun f rest hpeek => absurd hpeek (hnil f rest)⟩
    have hread' : (reader features).climb depth 0 (c.tokens lexicon) = some (c, []) := hread
    rw [hread']
    rfl

/-! ## Text -/

theorem spelled_atom (hdelimited : Delimited features) {a : Atom} (h : AdmitsAtom features a) :
    Spelled features (atom a) a.token := by
  have hself : Spelled features a.token.text a.token := by
    apply spelled_of_scanned hdelimited _ h.2
    intro punct
    rcases a with (_ | _ | _) | (_ | (_ | _) | _ | _) <;> exact Token.noConfusion
  rcases a with (_ | _ | _) | (_ | (_ | _) | _ | _)
  · exact hself
  · exact hself
  · exact hself
  · exact spelled_capitals hdelimited .Null
  · exact spelled_capitals hdelimited .False
  · exact spelled_capitals hdelimited .True
  · exact hself
  · exact hself

theorem spelled_infix (hdelimited : Delimited features) {op : BinaryOperator}
    (h : Admits features op) : ∀ t ∈ (infix_of op).tokens, Spelled features (spelling t) t := by
  have hwords : ∀ words : List Keyword, ∀ t ∈ keywords words, Spelled features (spelling t) t := by
    intro words t ht
    obtain ⟨word, -, rfl⟩ := List.mem_map.mp ht
    exact spelled_capitals hdelimited word
  unfold Admits at h
  cases ho : infix_of op with
  | symbol token means =>
    rw [ho] at h
    intro t ht
    rw [List.mem_singleton.mp ht]
    exact spelled_of_scanned hdelimited (fun punct => Token.noConfusion) h.2
  | word => exact hwords _
  | distinct => exact hwords _
  | equality => exact hwords _
  | _ =>
    rw [ho] at h
    exact absurd h id

/-- No sign stands behind a sign. -/
def SignsApart : Written → Prop
  | .group c => SignsApart c
  | .pre p c =>
    (∀ op, p = .unary op → is_sign op = true →
      leading c ≠ some (.operator .Minus) ∧ leading c ≠ some (.operator .Plus)) ∧ SignsApart c
  | .inf l _ r => SignsApart l ∧ SignsApart r
  | _ => True

theorem spelt_of_canonical (hdelimited : Delimited features) {c : Written}
    (h : Canonical features c) (hsigns : SignsApart c) : Spelt features c := by
  induction c with
  | atom a => exact spelled_atom hdelimited h
  | group c ih => exact ih h hsigns
  | pre p c ih =>
    obtain ⟨⟨op, rfl, hprior, -⟩, hc⟩ := h
    exact ⟨⟨op, rfl, hprior, hsigns.1 op rfl⟩, ih hc hsigns.2⟩
  | inf l o r ihl ihr =>
    obtain ⟨⟨op, rfl, hadmits, -⟩, hl, hr⟩ := h
    exact ⟨ihl hl hsigns.1, spelled_infix hdelimited hadmits, ihr hr hsigns.2⟩
  | mix => exact absurd h id
  | post => exact absurd h id

/-- No expression that is read as a tree of operators has an operator of the dialect's own. -/
theorem no_custom_of_shaped {d : Written} (h : Shaped features d) (w : List Char) :
    .operator (.Custom w) ∉ d.tokens lexicon := by
  induction d with
  | atom a =>
    intro hmem
    have heq := List.mem_singleton.mp hmem
    rcases a with (_ | _ | _) | (_ | (_ | _) | _ | _) <;> cases heq
  | group d ih =>
    intro hmem
    rw [Cst.tokens, List.mem_cons, List.mem_append, List.mem_singleton] at hmem
    rcases hmem with heq | hmem | heq
    · cases heq
    · exact ih h hmem
    · cases heq
  | pre p d ih =>
    obtain ⟨⟨op, rfl⟩, hd⟩ := h
    intro hmem
    rw [Cst.tokens, List.mem_append] at hmem
    rcases hmem with hmem | hmem
    · have heq := List.mem_singleton.mp hmem
      cases op <;> cases heq
    · exact ih hd hmem
  | inf l o r ihl ihr =>
    obtain ⟨⟨hbuilds, hknown, -⟩, hl, hr⟩ := h
    intro hmem
    rw [Cst.tokens, List.mem_append, List.mem_append] at hmem
    rcases hmem with hmem | hmem | hmem
    · exact ihl hl hmem
    · have hwords : ∀ words, .operator (.Custom w) ∉ keywords words := by
        intro words hmem
        obtain ⟨word, -, heq⟩ := List.mem_map.mp hmem
        cases heq
      cases o with
      | symbol op means =>
        have heq := Token.operator.inj (List.mem_singleton.mp hmem)
        have hmeans := infix_operator_of_symbolic hknown
        rw [← heq] at hmeans
        cases hmeans
      | word => exact hwords _ hmem
      | distinct => exact hwords _ hmem
      | equality => exact hwords _ hmem
      | negated_word => exact hwords _ hmem
      | _ => exact hbuilds
    · exact ihr hr hmem
  | mix => exact absurd h id
  | post => exact absurd h id

/-- The text of a canonical expression is read back as its tree exactly if it fits and no sign
    fuses with another. -/
theorem parses_to_iff (hgrouping : Grouping features ranks) (hseparated : Separated features)
    {c : Written} (h : Canonical features c) (hsigns : SignsApart c) :
    ParsesTo features (text c) (erase features c) ↔ Fits features c ∧ Unfused features c := by
  have hspelt := spelt_of_canonical hseparated.toDelimited h hsigns
  have htokenize : Unfused features c → tokenize features (text c) = some (c.tokens lexicon) := by
    intro hunfused
    have htext := tokenize_text hseparated hspelt hunfused .nil
    rwa [List.append_nil, tokenize_nil, Option.map_some, List.append_nil] at htext
  constructor
  · rintro ⟨ts, depth, htokens, hparse⟩
    by_cases hunfused : Unfused features c
    · rw [htokenize hunfused] at htokens
      obtain rfl := Option.some.inj htokens
      exact ⟨((parse_canonical_iff hgrouping h depth).mp hparse).1, hunfused⟩
    · rw [← List.append_nil (text c)] at htokens
      obtain ⟨w, hw⟩ := tokenize_fused hseparated hspelt hunfused .nil htokens
      rw [parse_expr, parse_expr_bp_eq hgrouping.toRegular] at hparse
      obtain ⟨d, hread, herase⟩ := tree_eq_some hparse
      have hshaped : Shaped features d := by
        apply shaped_of_taken (Reader.taken_of_climb (reader_faithful features) hread)
        rw [herase]
        exact operators_of_canonical h
      have hsplit : ts = d.tokens lexicon ++ [] :=
        Reader.climb_tokens (reader_faithful features) hread
      rw [hsplit, List.append_nil] at hw
      exact absurd hw (no_custom_of_shaped hshaped w)
  · rintro ⟨hfits, hunfused⟩
    exact ⟨c.tokens lexicon, c.height, htokenize hunfused,
      (parse_canonical_iff hgrouping h c.height).mpr ⟨hfits, Nat.le_refl _⟩⟩

end squonk.render
