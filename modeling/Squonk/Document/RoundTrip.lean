import Squonk.Document.Derived

/-!
# Round trip of a document

A parse gives every node a range of tokens for its span and an interned name for its symbol. That
is all its document needs to be read back as it was written.
-/

open squonk.interner squonk.serde_depth

namespace squonk.document

/-! ## Parses -/

/-- The ranges a parse gives to its nodes. -/
inductive SpanOf (tokens : List Span) : Span → Prop
  | start_of_source : SpanOf tokens ⟨0, 0⟩
  | token {span : Span} : span ∈ tokens → SpanOf tokens span
  /-- Part of a range, such as a name behind a sign or the empty range behind a token. -/
  | inner {span : Span} {start stop : Nat} : SpanOf tokens span → span.start ≤ start →
      start ≤ stop → stop ≤ span.stop → SpanOf tokens ⟨start, stop⟩
  | union {left right : Span} : SpanOf tokens left → SpanOf tokens right →
      SpanOf tokens ⟨min left.start right.start, max left.stop right.stop⟩

mutual

/-- Trees over ranges of tokens and over symbols that were handed out. -/
inductive Grown (tokens : List Span) (minted : List Symbol) : Node → Prop
  | spanned {kind : NodeKind} {info : Meta} {symbol : Option Symbol}
      {typed : symbol.isSome → kind.bears_symbol} {children : List Node} :
      SpanOf tokens info.span → (∀ sym, symbol = some sym → sym ∈ minted) →
      GrownAll tokens minted children → Grown tokens minted (.spanned kind info symbol typed children)
  | bare {kind : BareKind} {symbol : Option Symbol}
      {typed : symbol.isSome → kind.bears_symbol} {children : List Node} :
      (∀ sym, symbol = some sym → sym ∈ minted) → GrownAll tokens minted children →
      Grown tokens minted (.bare kind symbol typed children)

inductive GrownAll (tokens : List Span) (minted : List Symbol) : List Node → Prop
  | nil : GrownAll tokens minted []
  | cons {node : Node} {rest : List Node} : Grown tokens minted node →
      GrownAll tokens minted rest → GrownAll tokens minted (node :: rest)

end

/-- An accepted parse. Its names are all that were interned, those of failed attempts included. -/
structure Parse where
  source : String
  short : source_length source.toList < 2 ^ 32
  tokens : List Span
  in_source : ∀ span ∈ tokens, span.start ≤ span.stop ∧ span.stop ≤ source_length source.toList
  names : List Name
  string_literals : StringLiteralSyntaxDef
  statements : List Node
  grown : GrownAll tokens (Interner.new.minted names) statements

def Parse.interner (self : Parse) : Interner := Interner.new.run self.names

def Parse.parsed (self : Parse) : Parsed :=
  ⟨self.source, self.interner.strings, self.statements, self.string_literals⟩

theorem SpanOf.in_source {tokens : List Span} {length : Nat}
    (htokens : ∀ span ∈ tokens, span.start ≤ span.stop ∧ span.stop ≤ length) {span : Span}
    (h : SpanOf tokens span) : span.start ≤ span.stop ∧ span.stop ≤ length := by
  induction h with
  | start_of_source => exact ⟨Nat.le_refl 0, Nat.zero_le length⟩
  | token hmem => exact htokens _ hmem
  | inner _ hstart hle hstop ih => exact ⟨hle, hstop.trans ih.2⟩
  | union _ _ ihleft ihright =>
    constructor
    · exact (Nat.min_le_left _ _).trans (ihleft.1.trans (Nat.le_max_left _ _))
    · exact Nat.max_le.mpr ⟨ihleft.2, ihright.2⟩

mutual

theorem Grown.passes {tokens : List Span} {minted : List Symbol} {source_len : Nat}
    {resolver : List String} (hspans : ∀ span, SpanOf tokens span → span.fits source_len)
    (hsymbols : ∀ sym ∈ minted, (resolve_symbol resolver sym).isSome) {node : Node}
    (h : Grown tokens minted node) : ∀ n ∈ node.nodes, n.passes source_len resolver := by
  rw [DocumentValidator.forall_mem_nodes]
  match node, h with
  | .spanned kind info symbol typed children, .spanned hspan hsymbol hchildren =>
    refine ⟨⟨fun _ => hspans _ hspan, fun _ sym hsym => ?_⟩, ?_⟩
    · exact hsymbols sym (hsymbol sym hsym)
    · exact hchildren.passes hspans hsymbols
  | .bare kind symbol typed children, .bare hsymbol hchildren =>
    refine ⟨?_, hchildren.passes hspans hsymbols⟩
    cases kind with
    | ParameterKind => exact fun sym hsym => hsymbols sym (hsymbol sym hsym)
    | ExcludeOperator => trivial
    | Other => trivial

theorem GrownAll.passes {tokens : List Span} {minted : List Symbol} {source_len : Nat}
    {resolver : List String} (hspans : ∀ span, SpanOf tokens span → span.fits source_len)
    (hsymbols : ∀ sym ∈ minted, (resolve_symbol resolver sym).isSome) {trees : List Node}
    (h : GrownAll tokens minted trees) :
    ∀ n ∈ Node.nodesAll trees, n.passes source_len resolver := by
  match trees, h with
  | [], .nil => intro n hn; cases hn
  | node :: rest, .cons hnode hrest =>
    rw [Node.nodesAll, List.forall_mem_append]
    exact ⟨hnode.passes hspans hsymbols, hrest.passes hspans hsymbols⟩

end

/-- The document of a parse is valid. -/
theorem Parse.validate (self : Parse) :
    document.validate self.source.toList self.interner.strings self.statements = .ok () := by
  have hspans : ∀ span, SpanOf self.tokens span → span.fits (source_length self.source.toList) := by
    intro span hspan
    exact Or.inr (hspan.in_source self.in_source)
  have hsymbols := minted_resolves Interner.new self.names
  exact (validate_ok_iff _ _ _).mpr ⟨self.short, self.grown.passes hspans hsymbols⟩

/-! ## Round trip -/

/-- Symbols of a table are as many as their texts. -/
def Distinct (resolver : List String) : Prop :=
  ∀ a b, (resolve_symbol resolver a).isSome → (resolve_symbol resolver b).isSome →
    (a = b ↔ resolve_symbol resolver a = resolve_symbol resolver b)

theorem distinct_iff {resolver : List String} (hnodup : resolver.Nodup) :
    Distinct resolver ↔ ∀ s ∈ resolver, s ∉ KEYWORDS := by
  rw [← resolve_injective_iff hnodup]
  constructor
  · intro hdistinct a b s ha hb
    have hsome : ∀ {sym}, resolve_symbol resolver sym = some s →
        (resolve_symbol resolver sym).isSome := fun h => Option.isSome_of_eq_some h
    exact (hdistinct a b (hsome ha) (hsome hb)).mpr (ha.trans hb.symm)
  · intro hinjective a b ha hb
    obtain ⟨s, hs⟩ := Option.isSome_iff_exists.mp ha
    constructor
    · rintro rfl
      rfl
    · intro heq
      exact hinjective a b s hs (heq.symm.trans hs)

theorem Parse.distinct (self : Parse) : Distinct self.interner.strings := by
  refine (distinct_iff self.interner.strings_nodup).mpr ?_
  exact run_plain Interner.new self.names fun s hs => absurd hs (List.not_mem_nil)

/-- A parse is read back from its document. -/
theorem Parse.deserialize (self : Parse) (serde : Serde) (max_depth : Nat)
    (hdepth : (self.parsed.serialize serde).nesting ≤ max_depth) :
    deserialize_with_depth serde (self.parsed.serialize serde) max_depth = .ok self.parsed :=
  (deserialize_ok_iff serde _ max_depth self.parsed).mpr
    ⟨hdepth, deserialize_serialize serde self.parsed, self.interner.strings_nodup, self.validate⟩

/-- Every parse is read back from its document, with one symbol for each text; and an accepted
document, from a parse or not, has one symbol for each text exactly when its table has no
keyword in it. -/
theorem document_round_trip (serde : Serde) :
    (∀ (parse : Parse) (max_depth : Nat),
      (parse.parsed.serialize serde).nesting ≤ max_depth →
      deserialize_with_depth serde (parse.parsed.serialize serde) max_depth = .ok parse.parsed ∧
        Distinct parse.parsed.resolver) ∧
    ∀ (value : Value) (max_depth : Nat) (parsed : Parsed),
      deserialize_with_depth serde value max_depth = .ok parsed →
      (Distinct parsed.resolver ↔ ∀ s ∈ parsed.resolver, s ∉ KEYWORDS) := by
  constructor
  · intro parse max_depth hdepth
    exact ⟨parse.deserialize serde max_depth hdepth, parse.distinct⟩
  · intro value max_depth parsed hparsed
    obtain ⟨-, -, hnodup, -⟩ := (deserialize_ok_iff serde value max_depth parsed).mp hparsed
    exact distinct_iff hnodup

/-- A node without a symbol needs no type that bears one. -/
theorem typed_of_none {kind : NodeKind} :
    (none : Option Symbol).isSome → kind.bears_symbol := by
  simp

def select_statement : Node :=
  .spanned .Statement ⟨⟨0, 8⟩, 6⟩ none typed_of_none
    [.spanned .Query ⟨⟨0, 8⟩, 5⟩ none typed_of_none
      [.spanned .SetExpr ⟨⟨0, 8⟩, 4⟩ none typed_of_none
        [.spanned .Select ⟨⟨0, 8⟩, 3⟩ none typed_of_none
          [.spanned .Expr ⟨⟨7, 8⟩, 2⟩ none typed_of_none
            [.spanned .Literal ⟨⟨7, 8⟩, 1⟩ none typed_of_none []]]]]]

/-- The parse of `SELECT 1`. -/
def select_parse : Parse where
  source := "SELECT 1"
  short := by decide
  tokens := [⟨0, 6⟩, ⟨7, 8⟩]
  in_source := by decide
  names := []
  string_literals := ⟨false, false, false, false, false, false, false, false, false, false⟩
  statements := [select_statement]
  grown := by
    have hnone : ∀ sym, (none : Option Symbol) = some sym → sym ∈ Interner.new.minted [] := by
      intro sym h
      cases h
    have hliteral : SpanOf [⟨0, 6⟩, ⟨7, 8⟩] ⟨7, 8⟩ := .token (by decide)
    have hselect : SpanOf [⟨0, 6⟩, ⟨7, 8⟩] ⟨0, 8⟩ :=
      @SpanOf.union _ ⟨0, 6⟩ ⟨7, 8⟩ (.token (by decide)) hliteral
    exact .cons (.spanned hselect hnone (.cons (.spanned hselect hnone (.cons (.spanned hselect
      hnone (.cons (.spanned hselect hnone (.cons (.spanned hliteral hnone (.cons (.spanned hliteral
      hnone .nil) .nil)) .nil)) .nil)) .nil)) .nil)) .nil

theorem select_round_trip :
    deserialize_with_depth derived (select_parse.parsed.serialize derived) 32 =
        .ok select_parse.parsed ∧ Distinct select_parse.parsed.resolver := by
  apply (document_round_trip derived).1 select_parse 32
  have hstatement : Value.nesting select_statement.serialize ≤ 28 := by
    simp [select_statement, Node.serialize, Node.serializeAll, serialize_symbol, Value.nesting,
      Value.nestingAll]
  have hstrings : Value.nesting select_parse.string_literals.serialize = 1 := rfl
  have hsymbols : select_parse.interner.strings = [] := rfl
  have hstatements : select_parse.statements = [select_statement] := rfl
  simp only [Parsed.serialize, Parse.parsed, hsymbols, hstrings, hstatements, Value.nesting,
    Value.nestingAll, List.map_nil, List.map_cons, derived]
  omega

/-! ## A keyword in the table -/

def keyword_document : Parsed :=
  ⟨"", ["select"], [], ⟨false, false, false, false, false, false, false, false, false, false⟩⟩

set_option maxRecDepth 8000 in
theorem select_keyword : "select" ∈ KEYWORDS := by
  have hslot : KEYWORDS[678]? = some "select" := by
    unfold KEYWORDS
    rfl
  exact List.mem_of_getElem? hslot

/-- A table that has a keyword in it is accepted, though the keyword has a symbol already. -/
theorem deserialize_keyword_table :
    ¬ ∀ (serde : Serde) (value : Value) (max_depth : Nat) (parsed : Parsed),
      deserialize_with_depth serde value max_depth = .ok parsed → Distinct parsed.resolver := by
  intro h
  have haccepted : deserialize_with_depth derived (keyword_document.serialize derived) 2 =
      .ok keyword_document := by
    refine (deserialize_ok_iff derived _ 2 keyword_document).mpr
      ⟨by decide, deserialize_serialize derived keyword_document, List.nodup_singleton _, rfl⟩
  have hdistinct := (distinct_iff (List.nodup_singleton "select")).mp (h derived _ 2 _ haccepted)
  exact hdistinct "select" (List.mem_singleton_self _) select_keyword

end squonk.document
