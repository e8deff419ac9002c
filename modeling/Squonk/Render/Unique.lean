import Squonk.Climbing.Unambiguous
import Squonk.Render.Canonical

/-!
# One reading of the tokens

Of the expressions that are read as one tree of operators, no two have the same tokens. Beside
the parentheses, they differ in the place of a `NOT` and in the spelling of `AND` and `OR`.
-/

open squonk.ast squonk.tokenizer squonk.dialect squonk.precedence squonk.parser.expr climbing

namespace squonk.render

variable {features : FeatureSet}

/-- An infix operator that builds nodes of a tree of operators. -/
def BuildsOperator : Infix → Prop
  | .symbol _ _ | .word _ _ | .distinct _ | .equality _ | .negated_word _ _ => True
  | _ => False

/-- An expression that may be read as a tree of operators. -/
def Shaped (features : FeatureSet) : Written → Prop
  | .atom _ => True
  | .group c => Shaped features c
  | .pre p c => (∃ op, p = .unary op) ∧ Shaped features c
  | .inf l o r =>
    (BuildsOperator o ∧ Known features o ∧
      Operators (o.build features (erase features l) l.isGroup (erase features r))) ∧
      Shaped features l ∧ Shaped features r
  | _ => False

theorem shaped_of_taken {c : Written} (htaken : (reader features).Taken c)
    (hoperators : Operators (erase features c)) : Shaped features c := by
  have hboth : ∀ {l r : Expr} {grouped : Bool} {means : BinaryOperator},
      Operators (infix_expr features l grouped means r) → Operators l ∧ Operators r := by
    intro l r grouped means h
    rw [(infix_expr_operators h).1] at h
    exact h
  induction c with
  | atom a => exact trivial
  | group c ih => exact ih htaken hoperators
  | pre p c ih =>
    cases p with
    | unary op => exact ⟨⟨op, rfl⟩, ih htaken.2 hoperators⟩
    | symbol op => exact absurd hoperators id
  | inf l o r ihl ihr =>
    obtain ⟨⟨⟨ts, rest, hpeek⟩, hblocked⟩, hl, hr⟩ := htaken
    have hknown : Known features o := known_of_peek ⟨rest, hpeek⟩
    cases o with
    | symbol op means =>
      exact ⟨⟨trivial, hknown, hoperators⟩, ihl hl (hboth hoperators).1, ihr hr (hboth hoperators).2⟩
    | word keyword means =>
      exact ⟨⟨trivial, hknown, hoperators⟩, ihl hl (hboth hoperators).1, ihr hr (hboth hoperators).2⟩
    | distinct negated =>
      exact ⟨⟨trivial, hknown, hoperators⟩, ihl hl hoperators.1, ihr hr hoperators.2⟩
    | equality negated =>
      exact ⟨⟨trivial, hknown, hoperators⟩, ihl hl hoperators.1, ihr hr hoperators.2⟩
    | negated_word keyword means =>
      exact ⟨⟨trivial, hknown, hoperators⟩, ihl hl hoperators.1, ihr hr hoperators.2⟩
    | _ => exact absurd hoperators id
  | mix l o m r =>
    obtain ⟨-, ⟨ts, rest, hcont⟩, -⟩ := htaken
    cases o with
    | between => exact absurd hoperators id
    | like => exact absurd hoperators id
    | _ => cases hcont
  | post l q => cases q <;> exact absurd hoperators id

/-! ## Plain tokens -/

/-- The tokens of a tree of operators, without parentheses. -/
def size : Expr → Nat
  | .BinaryOp l op r => size l + (infix_of op).tokens.length + size r
  | .UnaryOp _ e => size e + 1
  | _ => 1

/-- No token of the list is a grouping parenthesis. -/
def Bare (ts : List Token) : Prop := ∀ t ∈ ts, ¬ lexicon.IsParen t

theorem plain_of_bare {ts : List Token} (h : Bare ts) : lexicon.plain ts = ts.length := by
  unfold Lexicon.plain
  rw [List.filter_eq_self.mpr]
  intro t ht
  simpa using h t ht

theorem net_of_bare {ts : List Token} (h : Bare ts) : lexicon.net ts = 0 := by
  have hopening : ts.count lexicon.opening = 0 :=
    List.count_eq_zero.mpr fun hmem => h _ hmem (Or.inl rfl)
  have hclosing : ts.count lexicon.closing = 0 :=
    List.count_eq_zero.mpr fun hmem => h _ hmem (Or.inr rfl)
  rw [Lexicon.net, hopening, hclosing]
  rfl

theorem bare_keywords (words : List Keyword) : Bare (keywords words) := by
  intro t ht
  obtain ⟨word, -, rfl⟩ := List.mem_map.mp ht
  rintro (h | h) <;> cases h

theorem bare_atom (a : Atom) : Bare [a.token] := by
  intro t ht
  rw [List.mem_singleton.mp ht]
  rcases a with (_ | _ | _) | (_ | (_ | _) | _ | _) <;> rintro (h | h) <;> cases h

theorem bare_unary (op : UnaryOperator) : Bare [(Prefix.unary op).token] := by
  intro t ht
  rw [List.mem_singleton.mp ht]
  cases op <;> rintro (h | h) <;> cases h

theorem bare_infix {o : Infix} (h : BuildsOperator o) : Bare o.tokens := by
  cases o with
  | symbol op means =>
    intro t ht
    rw [List.mem_singleton.mp ht]
    rintro (h | h) <;> cases h
  | word => exact bare_keywords _
  | distinct => exact bare_keywords _
  | equality => exact bare_keywords _
  | negated_word => exact bare_keywords _
  | _ => exact absurd h id

/-- A run without parentheses that is not empty is solid. -/
theorem solid_of_bare {ts : List Token} (h : Bare ts) (hne : ts ≠ []) : lexicon.Solid ts := by
  refine ⟨?_, net_of_bare h⟩
  cases ts with
  | nil => exact absurd rfl hne
  | cons t ts => exact ⟨t, ts, rfl, h t List.mem_cons_self⟩

theorem solid_infix {o : Infix} (h : BuildsOperator o) : lexicon.Solid (lexicon.infToks o) :=
  solid_of_bare ( bare_infix h) (infix_tokens_ne_nil o)

theorem net_tokens_of_shaped {c : Written} (h : Shaped features c) :
    lexicon.net (c.tokens lexicon) = 0 := by
  induction c with
  | atom a => exact net_of_bare (bare_atom a)
  | group c ih =>
    have hpair : lexicon.net [lexicon.opening] + lexicon.net [lexicon.closing] = 0 := by decide
    rw [Cst.tokens, ← List.singleton_append, Lexicon.net_append, Lexicon.net_append, ih h]
    omega
  | pre p c ih =>
    obtain ⟨⟨op, rfl⟩, hc⟩ := h
    rw [Cst.tokens, Lexicon.net_append, ih hc, Int.add_zero]
    exact net_of_bare (bare_unary op)
  | inf l o r ihl ihr =>
    have ho : lexicon.net (lexicon.infToks o) = 0 := net_of_bare ( bare_infix h.1.1)
    rw [Cst.tokens, Lexicon.net_append, Lexicon.net_append, ihl h.2.1, ihr h.2.2, ho]
    rfl
  | mix => exact absurd h id
  | post => exact absurd h id

/-- A symbol or a word is one token, and so is the operator that is written for it. -/
theorem length_infix_of {o : Infix} {means : BinaryOperator} (hmeans : o.means? = some means)
    (hknown : Known features o) : (infix_of means).tokens.length = o.tokens.length := by
  cases o with
  | symbol op means' =>
    obtain rfl := Option.some.inj hmeans
    rcases infix_of_symbol (infix_operator_of_symbolic hknown) with heq | rfl | rfl
    · rw [heq]
    · rfl
    · rfl
  | word keyword means' =>
    obtain rfl := Option.some.inj hmeans
    rw [infix_of_word hknown]
  | _ => cases hmeans

theorem build_of_means {o : Infix} {means : BinaryOperator} (hmeans : o.means? = some means)
    {l r : Expr} {grouped : Bool} (h : Operators (o.build features l grouped r)) :
    o.build features l grouped r = .BinaryOp l means r := by
  cases o with
  | symbol op means' =>
    obtain rfl := Option.some.inj hmeans
    exact (infix_expr_operators h).1
  | word keyword means' =>
    obtain rfl := Option.some.inj hmeans
    exact (infix_expr_operators h).1
  | _ => cases hmeans

/-- The plain tokens of an expression are counted on its tree. -/
theorem plain_tokens_of_shaped {c : Written} (h : Shaped features c) :
    lexicon.plain (c.tokens lexicon) = size (erase features c) := by
  induction c with
  | atom a =>
    rw [Cst.tokens]
    rcases a with (_ | _ | _) | (_ | (_ | _) | _ | _) <;> rfl
  | group c ih =>
    have hclosing : lexicon.plain [lexicon.closing] = 0 := Lexicon.plain_cons_paren (Or.inr rfl) []
    rw [Cst.tokens, Lexicon.plain_cons_paren (Or.inl rfl), Lexicon.plain_append, hclosing, ih h]
    rfl
  | pre p c ih =>
    obtain ⟨⟨op, rfl⟩, hc⟩ := h
    have hop : lexicon.plain (lexicon.preToks (.unary op)) = 1 := plain_of_bare (bare_unary op)
    rw [Cst.tokens, Lexicon.plain_append, ih hc, hop, Nat.add_comm]
    rfl
  | inf l o r ihl ihr =>
    have ho : lexicon.plain (lexicon.infToks o) = o.tokens.length := plain_of_bare ( bare_infix h.1.1)
    rw [Cst.tokens, Lexicon.plain_append, Lexicon.plain_append, ihl h.2.1, ihr h.2.2, ho]
    obtain ⟨⟨hbuilds, hknown, hoperators⟩, -⟩ := h
    rw [erase]
    cases hmeans : o.means? with
    | some means =>
      rw [build_of_means hmeans hoperators, size, length_infix_of hmeans hknown]
      omega
    | none =>
      cases o with
      | symbol => cases hmeans
      | word => cases hmeans
      | distinct negated =>
        cases negated <;> simp [Infix.build, distinct_operator, size, infix_of] <;> omega
      | equality negated =>
        cases negated <;> simp [Infix.build, equality_operator, size, infix_of] <;> omega
      | negated_word keyword means =>
        have hword := infix_of_word (keyword_operator_of_words hknown)
        simp only [Infix.build, size, hword]
        simp [Infix.tokens, keywords]
        omega
      | _ => exact absurd hbuilds id
  | mix => exact absurd h id
  | post => exact absurd h id

/-! ## The expressions that are read as a tree -/

theorem shaped_of_canonical {c : Written} (h : Canonical features c) : Shaped features c := by
  induction c with
  | atom a => exact trivial
  | group c ih => exact ih h
  | pre p c ih =>
    obtain ⟨⟨op, rfl, -⟩, hc⟩ := h
    exact ⟨⟨op, rfl⟩, ih hc⟩
  | inf l o r ihl ihr =>
    have hoperators : Operators (erase features (.inf l o r)) := operators_of_canonical h
    obtain ⟨⟨op, rfl, hadmits, -⟩, hl, hr⟩ := h
    have hknown : BuildsOperator (infix_of op) ∧ Known features (infix_of op) := by
      unfold Admits at hadmits
      cases ho : infix_of op with
      | symbol => rw [ho] at hadmits; exact ⟨trivial, hadmits.1⟩
      | word => rw [ho] at hadmits; exact ⟨trivial, hadmits⟩
      | distinct => rw [ho] at hadmits; exact ⟨trivial, hadmits⟩
      | equality => rw [ho] at hadmits; exact ⟨trivial, hadmits⟩
      | _ => rw [ho] at hadmits; exact absurd hadmits id
    exact ⟨⟨hknown.1, hknown.2, hoperators⟩, ihl hl, ihr hr⟩
  | mix => exact absurd h id
  | post => exact absurd h id

@[simp] theorem erase_wrap (k : Nat) (c : Written) :
    erase features (Cst.wrap k c) = erase features c := by
  induction k with
  | zero => rfl
  | succ k ih => exact ih

@[simp] theorem shaped_wrap (k : Nat) (c : Written) :
    Shaped features (Cst.wrap k c) ↔ Shaped features c := by
  induction k with
  | zero => rfl
  | succ k ih => exact ih

@[simp] theorem canonical_wrap (k : Nat) (c : Written) :
    Canonical features (Cst.wrap k c) ↔ Canonical features c := by
  induction k with
  | zero => rfl
  | succ k ih => exact ih

theorem build_atom_injective {a b : Atom} (h : a.build = b.build) : a = b := by
  cases a <;> cases b <;> cases h <;> rfl

/-- What is read as a node of two operands: the operator is the one that is written, or a symbol
for `AND` or `OR`. -/
theorem shaped_binary {d : Written} (h : Shaped features d) {l r : Expr} {op : BinaryOperator}
    (herase : erase features d = .BinaryOp l op r) :
    ∃ k dl o dr, d = Cst.wrap k (.inf dl o dr) ∧ Shaped features dl ∧ Shaped features dr ∧
      erase features dl = l ∧ erase features dr = r ∧ BuildsOperator o ∧
      (o = infix_of op ∨ ∃ token, o = .symbol token op ∧ (op = .And ∨ op = .Or)) := by
  obtain ⟨k, x, rfl, hcore⟩ := d.exists_wrap
  rw [shaped_wrap] at h
  rw [erase_wrap] at herase
  cases x with
  | atom a => cases a <;> cases herase
  | group => cases hcore
  | pre p c =>
    obtain ⟨⟨op', rfl⟩, -⟩ := h
    cases herase
  | inf dl o dr =>
    obtain ⟨⟨hbuilds, hknown, hoperators⟩, hl, hr⟩ := h
    rw [erase] at herase
    cases hmeans : o.means? with
    | some means =>
      rw [build_of_means hmeans hoperators] at herase
      obtain ⟨rfl, rfl, rfl⟩ := Expr.BinaryOp.inj herase
      refine ⟨k, dl, o, dr, rfl, hl, hr, rfl, rfl, hbuilds, ?_⟩
      cases o with
      | symbol token means' =>
        obtain rfl := Option.some.inj hmeans
        rcases infix_of_symbol (infix_operator_of_symbolic hknown) with heq | hand
        · exact Or.inl heq.symm
        · exact Or.inr ⟨token, rfl, hand⟩
      | word keyword means' =>
        obtain rfl := Option.some.inj hmeans
        exact Or.inl (infix_of_word hknown).symm
      | _ => cases hmeans
    | none =>
      cases o with
      | symbol => cases hmeans
      | word => cases hmeans
      | distinct negated =>
        obtain ⟨rfl, rfl, rfl⟩ := Expr.BinaryOp.inj herase
        exact ⟨k, dl, _, dr, rfl, hl, hr, rfl, rfl, trivial, Or.inl (by cases negated <;> rfl)⟩
      | equality negated =>
        obtain ⟨rfl, rfl, rfl⟩ := Expr.BinaryOp.inj herase
        exact ⟨k, dl, _, dr, rfl, hl, hr, rfl, rfl, trivial, Or.inl (by cases negated <;> rfl)⟩
      | negated_word => cases herase
      | _ => exact absurd hbuilds id
  | mix => exact absurd h id
  | post => exact absurd h id

/-- What is read as a node of one operand: a prefix, or the negated form of an infix word. -/
theorem shaped_unary {d : Written} (h : Shaped features d) {e : Expr} {op : UnaryOperator}
    (herase : erase features d = .UnaryOp op e) :
    (∃ k x, d = Cst.wrap k (.pre (.unary op) x) ∧ Shaped features x ∧ erase features x = e) ∨
      ∃ k dl keyword means dr, d = Cst.wrap k (.inf dl (.negated_word keyword means) dr) ∧
        op = .Not ∧ Shaped features dl ∧ e = .BinaryOp (erase features dl) means (erase features dr) := by
  obtain ⟨k, x, rfl, hcore⟩ := d.exists_wrap
  rw [shaped_wrap] at h
  rw [erase_wrap] at herase
  cases x with
  | atom a => cases a <;> cases herase
  | group => cases hcore
  | pre p c =>
    obtain ⟨⟨op', rfl⟩, hc⟩ := h
    obtain ⟨rfl, rfl⟩ := Expr.UnaryOp.inj herase
    exact Or.inl ⟨k, c, rfl, hc, rfl⟩
  | inf dl o dr =>
    obtain ⟨⟨hbuilds, hknown, hoperators⟩, hl, hr⟩ := h
    rw [erase] at herase
    cases hmeans : o.means? with
    | some means =>
      rw [build_of_means hmeans hoperators] at herase
      cases herase
    | none =>
      cases o with
      | symbol => cases hmeans
      | word => cases hmeans
      | negated_word keyword means =>
        obtain ⟨rfl, rfl⟩ := Expr.UnaryOp.inj herase
        exact Or.inr ⟨k, dl, keyword, means, dr, rfl, rfl, hl, rfl⟩
      | distinct => cases herase
      | equality => cases herase
      | _ => exact absurd hbuilds id
  | mix => exact absurd h id
  | post => exact absurd h id

/-- What is read as an atom is that atom, in parentheses. -/
theorem shaped_atom {d : Written} (h : Shaped features d) {a : Atom}
    (herase : erase features d = a.build) : ∃ k, d = Cst.wrap k (.atom a) := by
  obtain ⟨k, x, rfl, hcore⟩ := d.exists_wrap
  rw [shaped_wrap] at h
  rw [erase_wrap] at herase
  cases x with
  | atom b => exact ⟨k, by rw [build_atom_injective herase]⟩
  | group => cases hcore
  | pre p c =>
    obtain ⟨⟨op, rfl⟩, -⟩ := h
    cases a <;> cases herase
  | inf dl o dr =>
    have hoperators : Operators (erase features (.inf dl o dr)) := h.1.2.2
    rw [erase] at herase
    cases hmeans : o.means? with
    | some means =>
      rw [build_of_means hmeans h.1.2.2] at herase
      cases a <;> cases herase
    | none =>
      cases o with
      | symbol => cases hmeans
      | word => cases hmeans
      | distinct => cases a <;> cases herase
      | equality => cases a <;> cases herase
      | negated_word => cases a <;> cases herase
      | _ => exact absurd h.1.1 id
  | mix => exact absurd h id
  | post => exact absurd h id

/-! ## Uniqueness -/

theorem opening_ne_closing : lexicon.opening ≠ lexicon.closing := by decide

theorem canonical_atom {c : Written} (h : Canonical features c) {a : Atom}
    (herase : erase features c = a.build) : ∃ k, c = Cst.wrap k (.atom a) :=
  shaped_atom (shaped_of_canonical h) herase

theorem canonical_binary {c : Written} (h : Canonical features c) {l r : Expr}
    {op : BinaryOperator} (herase : erase features c = .BinaryOp l op r) :
    ∃ k cl cr, c = Cst.wrap k (.inf cl (infix_of op) cr) ∧ Canonical features cl ∧
      Canonical features cr ∧ erase features cl = l ∧ erase features cr = r := by
  obtain ⟨k, x, rfl, hcore⟩ := c.exists_wrap
  rw [canonical_wrap] at h
  rw [erase_wrap] at herase
  cases x with
  | atom a => cases a <;> cases herase
  | group => cases hcore
  | pre p c =>
    obtain ⟨⟨op', rfl, -⟩, -⟩ := h
    cases herase
  | inf cl o cr =>
    obtain ⟨op', rfl, -, heq⟩ := erase_inf_of_canonical h
    rw [heq] at herase
    obtain ⟨rfl, rfl, rfl⟩ := Expr.BinaryOp.inj herase
    exact ⟨k, cl, cr, rfl, h.2.1, h.2.2, rfl, rfl⟩
  | mix => exact absurd h id
  | post => exact absurd h id

theorem canonical_unary {c : Written} (h : Canonical features c) {e : Expr} {op : UnaryOperator}
    (herase : erase features c = .UnaryOp op e) :
    ∃ k x, c = Cst.wrap k (.pre (.unary op) x) ∧ Canonical features x ∧ erase features x = e := by
  obtain ⟨k, x, rfl, hcore⟩ := c.exists_wrap
  rw [canonical_wrap] at h
  rw [erase_wrap] at herase
  cases x with
  | atom a => cases a <;> cases herase
  | group => cases hcore
  | pre p c =>
    obtain ⟨⟨op', rfl, -⟩, hc⟩ := h
    obtain ⟨rfl, rfl⟩ := Expr.UnaryOp.inj herase
    exact ⟨k, c, rfl, hc, rfl⟩
  | inf cl o cr =>
    obtain ⟨op', -, -, heq⟩ := erase_inf_of_canonical h
    rw [heq] at herase
    cases herase
  | mix => exact absurd h id
  | post => exact absurd h id

/-- A prefix `NOT` is not written where the negated form of an infix word is read. -/
theorem prefix_ne_negated {j k : Nat} {x dl dr : Written} {keyword : Keyword}
    {means : BinaryOperator} (hx : Canonical features x) (hdl : Shaped features dl)
    (herase : erase features x = .BinaryOp (erase features dl) means (erase features dr)) :
    (Cst.wrap j (.pre (.unary .Not) x)).tokens lexicon ≠
      (Cst.wrap k (.inf dl (.negated_word keyword means) dr)).tokens lexicon := by
  obtain ⟨i, cl, cr, rfl, hcl, -, heraseL, -⟩ := canonical_binary hx herase
  obtain ⟨front, a, m, ha, htokens⟩ := tokens_last hcl
  intro heq
  have hcount : lexicon.plain (cl.tokens lexicon) = lexicon.plain (dl.tokens lexicon) := by
    rw [plain_tokens_of_shaped (shaped_of_canonical hcl), plain_tokens_of_shaped hdl, heraseL]
  -- the last plain token of the left operand stands where the other expression has its `NOT`
  have hplain : lexicon.plain (List.replicate j lexicon.opening ++ .keyword .Not ::
      (List.replicate i lexicon.opening ++ front)) =
      lexicon.plain (List.replicate k lexicon.opening ++ dl.tokens lexicon) := by
    have hnot : ¬ lexicon.IsParen (.keyword .Not) := bare_keywords [.Not] _ List.mem_cons_self
    have hlast : ¬ lexicon.IsParen a.token := bare_atom a _ List.mem_cons_self
    have hclosings : lexicon.plain (List.replicate m lexicon.closing) = 0 := by
      unfold Lexicon.plain
      rw [List.length_eq_zero_iff, List.filter_eq_nil_iff]
      intro t ht
      rw [List.eq_of_mem_replicate ht]
      simp [Lexicon.IsParen]
    rw [htokens, Lexicon.plain_append, Lexicon.plain_cons hlast] at hcount
    change lexicon.plain front + (lexicon.plain (List.replicate m lexicon.closing) + 1) = _ at hcount
    rw [hclosings] at hcount
    rw [Lexicon.plain_append, Lexicon.plain_append, Lexicon.plain_cons hnot, Lexicon.plain_append,
      Lexicon.plain_replicate_opening, Lexicon.plain_replicate_opening,
      Lexicon.plain_replicate_opening]
    omega
  rw [Cst.tokens_wrap, Cst.tokens_wrap, Cst.tokens, Cst.tokens_wrap, Cst.tokens, Cst.tokens,
    htokens] at heq
  obtain ⟨-, hnot, -⟩ := @Lexicon.split_at_plain _ _ _ _ _ _ lexicon _ _
    (List.replicate m .rparen ++ (lexicon.infToks (infix_of means) ++ cr.tokens lexicon) ++
      List.replicate i lexicon.closing ++ List.replicate j lexicon.closing)
    (.keyword keyword :: dr.tokens lexicon ++ List.replicate k lexicon.closing)
    a.token (.keyword .Not) (bare_atom a _ List.mem_cons_self)
    (bare_keywords [.Not] _ List.mem_cons_self) hplain
    (by simpa [lexicon, Prefix.token, Infix.tokens, keywords] using heq)
  exact atom_ne_not ha hnot

/-- The infix operator that is read is the one that is written, if their tokens start alike. -/
theorem infix_eq_of_tokens {op : BinaryOperator} {o : Infix} {ts ts' : List Token}
    (ho : o = infix_of op ∨ ∃ token, o = .symbol token op ∧ (op = .And ∨ op = .Or))
    (h : (infix_of op).tokens ++ ts = o.tokens ++ ts') : o = infix_of op := by
  rcases ho with rfl | ⟨token, rfl, rfl | rfl⟩
  · rfl
  · cases (List.cons.inj h).1
  · cases (List.cons.inj h).1

/-- A canonical expression is the only one with its tree and its tokens. -/
theorem eq_of_erase_eq {c d : Written} (hc : Canonical features c) (hd : Shaped features d)
    (herase : erase features c = erase features d)
    (htokens : c.tokens lexicon = d.tokens lexicon) : c = d := by
  have hatom : ∀ {c d : Written} {a : Atom}, Canonical features c → Shaped features d →
      erase features c = a.build → erase features d = a.build →
      c.tokens lexicon = d.tokens lexicon → c = d := by
    intro c d a hc hd hec hed htokens
    obtain ⟨j, rfl⟩ := canonical_atom hc hec
    obtain ⟨k, rfl⟩ := shaped_atom hd hed
    have hlength := congrArg List.length htokens
    rw [Cst.tokens_wrap, Cst.tokens_wrap] at hlength
    simp only [List.length_append, List.length_replicate] at hlength
    rw [show j = k by omega]
  generalize he : erase features c = e at herase
  have hed := herase.symm
  clear herase
  induction e generalizing c d with
  | Column name => exact hatom hc hd (a := .column name) he hed htokens
  | Literal value => exact hatom hc hd (a := .literal value) he hed htokens
  | UnaryOp op e ih =>
    obtain ⟨j, x, rfl, hx, hex⟩ := canonical_unary hc he
    rcases shaped_unary hd hed with ⟨k, y, rfl, hy, hey⟩ |
      ⟨k, dl, keyword, means, dr, rfl, rfl, hdl, heq⟩
    · rw [Cst.tokens_wrap, Cst.tokens_wrap] at htokens
      have hop : lexicon.Solid (lexicon.preToks (.unary op)) :=
        solid_of_bare (bare_unary op) (List.cons_ne_nil _ _)
      obtain ⟨rfl, -, hrest⟩ := Lexicon.split_wrapped opening_ne_closing [] [] hop hop rfl rfl rfl
        (by simpa only [List.nil_append, Cst.tokens, List.append_assoc] using htokens)
      rw [ih hx hy (List.append_cancel_right (List.append_cancel_left hrest)) hex hey]
    · exact absurd htokens (prefix_ne_negated hx hdl (hex.trans heq))
  | BinaryOp l op r ihl ihr =>
    obtain ⟨j, cl, cr, rfl, hcl, hcr, hecl, hecr⟩ := canonical_binary hc he
    obtain ⟨k, dl, o, dr, rfl, hdl, hdr, hedl, hedr, hbuilds, ho⟩ := shaped_binary hd hed
    have hwritten : BuildsOperator (infix_of op) := by
      have hinf := (canonical_wrap j _).mp hc
      exact (shaped_of_canonical hinf).1.1
    have hcount : lexicon.plain (cl.tokens lexicon) = lexicon.plain (dl.tokens lexicon) := by
      rw [plain_tokens_of_shaped (shaped_of_canonical hcl), plain_tokens_of_shaped hdl, hecl, hedl]
    rw [Cst.tokens_wrap, Cst.tokens_wrap] at htokens
    obtain ⟨rfl, hleft, hrest⟩ := Lexicon.split_wrapped opening_ne_closing _ _
      ( solid_infix hwritten) ( solid_infix hbuilds) (net_tokens_of_shaped (shaped_of_canonical hcl))
      (net_tokens_of_shaped hdl) hcount
      (by simpa only [Cst.tokens, List.append_assoc] using htokens)
    obtain rfl := infix_eq_of_tokens ho hrest
    rw [ihl hcl hdl hleft hecl hedl,
      ihr hcr hdr (List.append_cancel_right (List.append_cancel_left hrest)) hecr hedr]
  | _ =>
    have hoperators := operators_of_canonical hc
    rw [he] at hoperators
    exact absurd hoperators id

end squonk.render
