import Squonk.Document.Derived

/-!
# What validation leaves open

A valid node has a span that slices the source and a symbol that resolves. The walk misses the
node types outside of its list, the symbols they have, and the inside of characters.
-/

open squonk.interner squonk.serde_depth

namespace squonk.document

/-- The offsets between the characters of a text and at its ends. -/
def boundaries : List Char → List Nat
  | [] => [0]
  | c :: rest => 0 :: (boundaries rest).map (c.utf8Size + ·)

theorem boundaries_le {source : List Char} {offset : Nat} (h : offset ∈ boundaries source) :
    offset ≤ source_length source := by
  induction source generalizing offset with
  | nil =>
    rw [boundaries, List.mem_singleton] at h
    omega
  | cons c rest ih =>
    rw [boundaries, List.mem_cons, List.mem_map] at h
    rcases h with rfl | ⟨inner, hinner, rfl⟩
    · exact Nat.zero_le _
    · have hle := ih hinner
      rw [source_length, List.map_cons, List.sum_cons]
      exact Nat.add_le_add_left hle _

/-- A synthetic span, or one that starts and ends between characters. -/
def Span.slices (self : Span) (source : List Char) : Prop :=
  self.is_synthetic ∨
    self.start ≤ self.stop ∧ self.start ∈ boundaries source ∧ self.stop ∈ boundaries source

/-- A span that is in bounds slices the source unless it cuts a character. -/
theorem slices_iff_fits (self : Span) (source : List Char) :
    self.slices source ↔ self.fits (source_length source) ∧
      (self.is_synthetic ∨ self.start ∈ boundaries source ∧ self.stop ∈ boundaries source) := by
  have hle : self.stop ∈ boundaries source → self.stop ≤ source_length source := boundaries_le
  unfold Span.slices Span.fits
  tauto

/-- A node that can be rendered, sliced and resolved. -/
def Node.Valid (source : List Char) (resolver : List String) (node : Node) : Prop :=
  (∀ span, node.span = some span → span.slices source) ∧ resolves resolver node.symbol

def Parsed.Valid (parsed : Parsed) : Prop :=
  ∀ node ∈ Node.nodesAll parsed.statements, node.Valid parsed.source.toList parsed.resolver

/-- What the walk does not look at is in order: the span of a node type without a visit, the ends
of a span that is checked, and a symbol outside of the five checked sites. -/
def Node.UncheckedValid (source : List Char) (resolver : List String) : Node → Prop
  | .spanned kind info symbol _ _ =>
    (if kind.checks_span then
      info.span.is_synthetic ∨ info.span.start ∈ boundaries source ∧ info.span.stop ∈ boundaries source
    else info.span.slices source) ∧
    (kind.checks_symbol ∨ resolves resolver symbol)
  | .bare kind symbol _ _ => kind = .ParameterKind ∨ resolves resolver symbol

theorem Node.valid_iff {source : List Char} {resolver : List String} {node : Node}
    (h : node.passes (source_length source) resolver) :
    node.Valid source resolver ↔ node.UncheckedValid source resolver := by
  cases node with
  | spanned kind info symbol typed children =>
    obtain ⟨hspan, hsymbol⟩ := h
    simp only [Node.Valid, Node.UncheckedValid, Node.span, Node.symbol, Option.some.injEq,
      forall_eq']
    apply and_congr
    · split
      · rename_i hchecks
        rw [slices_iff_fits]
        exact and_iff_right (hspan hchecks)
      · exact Iff.rfl
    · constructor
      · intro h
        exact Or.inr h
      · rintro (hchecks | hresolves)
        · exact hsymbol hchecks
        · exact hresolves
  | bare kind symbol typed children =>
    simp only [Node.Valid, Node.UncheckedValid, Node.span, Node.symbol, reduceCtorEq,
      false_implies, implies_true, true_and]
    constructor
    · intro h
      exact Or.inr h
    · rintro (rfl | hresolves)
      · exact h
      · exact hresolves

/-- An accepted document is valid exactly when what the walk does not look at is in order. -/
theorem deserialize_valid_iff (serde : Serde) (value : Value) (max_depth : Nat) (parsed : Parsed)
    (h : deserialize_with_depth serde value max_depth = .ok parsed) :
    parsed.Valid ↔ ∀ node ∈ Node.nodesAll parsed.statements,
      node.UncheckedValid parsed.source.toList parsed.resolver := by
  obtain ⟨-, -, -, hvalid⟩ := (deserialize_ok_iff serde value max_depth parsed).mp h
  have hpasses := ((validate_ok_iff _ _ _).mp hvalid).2
  constructor
  · intro hall node hnode
    exact (Node.valid_iff (hpasses node hnode)).mp (hall node hnode)
  · intro hall node hnode
    exact (Node.valid_iff (hpasses node hnode)).mpr (hall node hnode)

/-! ## A prefix operator without a text -/

def ansi_strings : StringLiteralSyntaxDef :=
  ⟨false, false, false, false, false, false, false, false, false, false⟩

/-- The statement `SELECT @ 1`, where the first interned text names the operator. -/
def prefix_statement : Node :=
  .spanned .Statement ⟨⟨0, 10⟩, 8⟩ none (by decide)
    [.spanned .Query ⟨⟨0, 10⟩, 7⟩ none (by decide)
      [.spanned .SetExpr ⟨⟨0, 10⟩, 6⟩ none (by decide)
        [.spanned .Select ⟨⟨0, 10⟩, 5⟩ none (by decide)
          [.spanned .SelectItem ⟨⟨7, 10⟩, 4⟩ none (by decide)
            [.spanned .Expr ⟨⟨7, 10⟩, 3⟩ none (by decide)
              [.spanned .PrefixOperatorExpr ⟨⟨7, 10⟩, 3⟩ (some (dynamic_symbol 0)) (by decide)
                [.spanned .Expr ⟨⟨9, 10⟩, 2⟩ none (by decide)
                  [.spanned .Literal ⟨⟨9, 10⟩, 1⟩ none (by decide) []]]]]]]]]

def prefix_document (symbols : List String) : Parsed :=
  ⟨"SELECT @ 1", symbols, [prefix_statement], ansi_strings⟩

/-- The statement is accepted under any table: no visit comes to the operator's symbol. -/
theorem deserialize_prefix_document {symbols : List String} (hsymbols : symbols.Nodup) :
    deserialize_with_depth derived ((prefix_document symbols).serialize derived) 32 =
      .ok (prefix_document symbols) := by
  have hstatement : Value.nesting prefix_statement.serialize ≤ 28 := by
    simp [prefix_statement, Node.serialize, Node.serializeAll, serialize_symbol, Value.nesting,
      Value.nestingAll]
  have hstrings : Value.nesting ansi_strings.serialize = 1 := rfl
  have hnesting : ((prefix_document symbols).serialize derived).nesting ≤ 32 := by
    have htexts : Value.nestingAll (symbols.map .text) = 0 := by
      induction symbols with
      | nil => rfl
      | cons symbol symbols ih => simp_all [Value.nestingAll, Value.nesting]
    simp only [Parsed.serialize, prefix_document, derived, Value.nesting, Value.nestingAll,
      List.map_cons, List.map_nil, htexts, hstrings]
    omega
  have hoperator : NodeKind.PrefixOperatorExpr.checks_symbol = false := rfl
  have hlength : source_length "SELECT @ 1".toList = 10 := by decide
  have hvalid : validate "SELECT @ 1".toList symbols [prefix_statement] = .ok () := by
    rw [validate_ok_iff, hlength]
    refine ⟨by decide, ?_⟩
    simp [prefix_statement, Node.nodesAll, Node.nodes, Node.passes, hoperator, Span.fits, resolves]
  have hshape := deserialize_serialize derived (prefix_document symbols)
  exact (deserialize_ok_iff derived ((prefix_document symbols).serialize derived) 32
    (prefix_document symbols)).mpr
    ⟨hnesting, hshape, hsymbols, hvalid⟩

theorem prefix_document_valid : (prefix_document ["@"]).Valid := by
  have haccepted := deserialize_prefix_document (List.nodup_singleton "@")
  refine (deserialize_valid_iff derived _ 32 _ haccepted).mpr ?_
  have hresolves : resolve_symbol ["@"] (dynamic_symbol 0) = some "@" := by rw [resolve_dynamic]; rfl
  simp [prefix_document, prefix_statement, Node.nodesAll, Node.nodes, Node.UncheckedValid,
    Span.slices, resolves, hresolves]
  decide

/-- An operator whose symbol is not in the table is accepted. -/
theorem deserialize_unresolved_operator :
    ¬ ∀ (serde : Serde) (value : Value) (max_depth : Nat) (parsed : Parsed),
      deserialize_with_depth serde value max_depth = .ok parsed → parsed.Valid := by
  intro h
  have hvalid := h derived _ 32 _ (deserialize_prefix_document List.nodup_nil)
  have hnode : Node.spanned .PrefixOperatorExpr ⟨⟨7, 10⟩, 3⟩ (some (dynamic_symbol 0)) (by decide)
      [.spanned .Expr ⟨⟨9, 10⟩, 2⟩ none (by decide)
        [.spanned .Literal ⟨⟨9, 10⟩, 1⟩ none (by decide) []]] ∈
      Node.nodesAll (prefix_document []).statements := by
    simp [prefix_document, prefix_statement, Node.nodesAll, Node.nodes]
  have hresolves := (hvalid _ hnode).2 (dynamic_symbol 0) rfl
  rw [prefix_document, resolve_dynamic] at hresolves
  cases hresolves

end squonk.document
