import Mathlib.Tactic.Tauto
import Squonk.Document.Node

/-!
# Validation of a document

One walk over the statements. A fault is recorded once, and the node types with a visit of their
own stop there; the others go on to their children.
-/

open squonk.interner

namespace squonk.document

inductive ValidationError
  | SourceTooLong
  /-- A span of this node type is not a range of the source. -/
  | Span (kind : NodeKind) (span : Span) (source_len : Nat)
  | Symbol (sym : Symbol)
  deriving DecidableEq

structure DocumentValidator where
  source_len : Nat
  resolver : List String
  visited : Nat
  error : Option ValidationError

namespace DocumentValidator

/-- Record a fault unless there is one. -/
def fault (self : DocumentValidator) (error : ValidationError) : DocumentValidator :=
  { self with error := self.error.or (some error) }

def check_span (self : DocumentValidator) (kind : NodeKind) (span : Span) : DocumentValidator :=
  let self := { self with visited := self.visited + 1 }
  if span.is_synthetic then self
  else if span.start > span.stop ∨ span.stop > self.source_len then
    self.fault (.Span kind span self.source_len)
  else self

def check_symbol (self : DocumentValidator) (sym : Symbol) : DocumentValidator :=
  if resolve_symbol self.resolver sym = none then self.fault (.Symbol sym) else self

def check_symbol_of (self : DocumentValidator) : Option Symbol → DocumentValidator
  | none => self
  | some sym => self.check_symbol sym

end DocumentValidator

/-- The node types whose visit checks the span and nothing else. -/
def NodeKind.check_spans : NodeKind → Bool
  | .SessionStatement | .SetValue | .SetParameterValue | .SpecialSetValue | .ConstraintsTarget
  | .SetNamesValue | .ConfigParameter | .AccessControlStatement | .Privileges | .Privilege
  | .GrantObject | .RoutineSignature | .Grantee | .RoleSpec | .CreateTable | .CreateTableBody
  | .TableElement | .ColumnDef | .ColumnConstraint | .ConstraintCharacteristics | .ColumnOption
  | .ForeignKeyRef | .ReferentialAction | .GeneratedColumn | .IdentityColumn | .IdentityOption
  | .TableConstraintDef | .TableConstraint | .CreateTableOption | .CreateTableOptionKind
  | .TableOption | .TableOptionValue | .TableStorageParameter | .AlterTable | .AlterTableAction
  | .AlterColumnAction | .DropStatement | .CommentOnStatement | .CreateSchema | .CreateView
  | .CreateIndex | .IndexColumn | .CreateTrigger | .TriggerEvent | .CreateDatabase
  | .CreateFunction | .FunctionParam | .FunctionOption | .Insert | .InsertTarget
  | .InsertSource | .InsertValues | .InsertValue | .DmlTarget | .Update | .UpdateAssignment
  | .UpdateValue | .UpdateTupleSource | .Delete | .DmlSelection | .DefaultValue | .Returning
  | .Upsert | .OnConflict | .ConflictTarget | .ConflictAction | .Merge | .MergeWhenClause
  | .MergeAction | .SubscriptExpr | .CollateExpr | .AtTimeZoneExpr | .ArrayExpr | .RowExpr
  | .FieldSelectionExpr | .FunctionCall | .CaseExpr | .WhenClause | .ExtractExpr | .Literal
  | .Query | .SetExpr | .With | .Cte | .Values | .ValuesItem | .Select | .IntoTarget
  | .GroupByItem | .SelectItem | .SelectDistinct | .TableWithJoins | .TableAlias | .TableSample
  | .TableFunctionColumn | .RowsFromItem | .TableFactor | .Join | .JoinOperator
  | .JoinConstraint | .OrderByExpr | .OrderByUsing | .Limit | .Statement
  | .TransactionStatement | .TransactionMode | .DataType | .CopyStatement | .CopySource
  | .CopyTarget | .CopyOption | .CopyOptionValue | .ExplainStatement | .ExplainOption
  | .PragmaStatement | .AttachStatement | .DetachStatement | .VacuumStatement
  | .ReindexStatement | .AnalyzeStatement | .UseStatement | .Pivot | .Unpivot | .PivotExpr
  | .PivotColumn | .UnpivotColumn | .WindowSpec | .WindowDefinition | .WindowFrame
  | .WindowFrameBound | .NamedWindow => true
  | _ => false

/-- The node types whose visit checks the span and the symbol. -/
def NodeKind.checks_symbol : NodeKind → Bool
  | .Ident | .Expr | .FunctionArg | .NamedOperatorExpr => true
  | _ => false

def NodeKind.checks_span (kind : NodeKind) : Bool := kind.check_spans || kind.checks_symbol

namespace DocumentValidator

mutual

def visit (self : DocumentValidator) : Node → DocumentValidator
  | .spanned kind info symbol _ children =>
    if kind.checks_span then
      if self.error.isSome then self
      else if kind.checks_symbol then
        visitAll ((self.check_span kind info.span).check_symbol_of symbol) children
      else visitAll (self.check_span kind info.span) children
    else visitAll self children
  | .bare .ParameterKind symbol _ children =>
    if self.error.isSome then self else visitAll (self.check_symbol_of symbol) children
  | .bare _ _ _ children => visitAll self children

def visitAll (self : DocumentValidator) : List Node → DocumentValidator
  | [] => self
  | node :: rest => visitAll (visit self node) rest

end

/-- Visit the statements up to the first fault. -/
def visit_statements (self : DocumentValidator) : List Node → DocumentValidator
  | [] => self
  | statement :: rest =>
    if self.error.isSome then self else (self.visit statement).visit_statements rest

end DocumentValidator

def source_length (source : List Char) : Nat := (source.map Char.utf8Size).sum

def validate (source : List Char) (resolver : List String) (statements : List Node) :
    Except ValidationError Unit :=
  if source_length source < 2 ^ 32 then
    let validator : DocumentValidator := ⟨source_length source, resolver, 0, none⟩
    match (validator.visit_statements statements).error with
    | some message => .error message
    | none => .ok ()
  else .error .SourceTooLong

/-! ## What the walk accepts -/

/-- A synthetic span, or a range of a source of this length. -/
def Span.fits (self : Span) (source_len : Nat) : Prop :=
  self.is_synthetic ∨ self.start ≤ self.stop ∧ self.stop ≤ source_len

instance (self : Span) (source_len : Nat) : Decidable (self.fits source_len) :=
  inferInstanceAs (Decidable (_ ∨ _))

/-- Whether a symbol, if there is one, has a text. -/
def resolves (resolver : List String) (symbol : Option Symbol) : Prop :=
  ∀ sym, symbol = some sym → (resolve_symbol resolver sym).isSome

/-- What the walk asks of one node. -/
def Node.passes (source_len : Nat) (resolver : List String) : Node → Prop
  | .spanned kind info symbol _ _ => (kind.checks_span → info.span.fits source_len) ∧
      (kind.checks_symbol → resolves resolver symbol)
  | .bare .ParameterKind symbol _ _ => resolves resolver symbol
  | .bare _ _ _ _ => True

namespace DocumentValidator

/-- A validator of the same document. -/
def Same (self other : DocumentValidator) : Prop :=
  other.source_len = self.source_len ∧ other.resolver = self.resolver

theorem Same.trans {a b c : DocumentValidator} (hab : a.Same b) (hbc : b.Same c) : a.Same c :=
  ⟨hbc.1.trans hab.1, hbc.2.trans hab.2⟩

theorem check_span_same (self : DocumentValidator) (kind : NodeKind) (span : Span) :
    self.Same (self.check_span kind span) := by
  unfold check_span
  dsimp only
  split
  · exact ⟨rfl, rfl⟩
  · split <;> exact ⟨rfl, rfl⟩

theorem check_symbol_of_same (self : DocumentValidator) (symbol : Option Symbol) :
    self.Same (self.check_symbol_of symbol) := by
  cases symbol with
  | none => exact ⟨rfl, rfl⟩
  | some sym =>
    rw [check_symbol_of, check_symbol]
    split <;> exact ⟨rfl, rfl⟩

theorem fault_error (self : DocumentValidator) (error : ValidationError) :
    (self.fault error).error ≠ none := by
  intro h
  rw [fault, Option.or_eq_none_iff] at h
  cases h.2

theorem check_span_error_iff (self : DocumentValidator) (kind : NodeKind) (span : Span) :
    (self.check_span kind span).error = none ↔
      self.error = none ∧ span.fits self.source_len := by
  unfold check_span Span.fits
  dsimp only
  split
  · rename_i hsynthetic
    simp [hsynthetic]
  · rename_i hsynthetic
    split
    · rename_i hout
      constructor
      · intro h
        exact absurd h (fault_error _ _)
      · rintro ⟨-, hfits⟩
        rcases hfits with hfits | hfits
        · exact absurd hfits hsynthetic
        · omega
    · rename_i hin
      constructor
      · intro h
        exact ⟨h, Or.inr (by omega)⟩
      · intro h
        exact h.1

theorem check_symbol_of_error_iff (self : DocumentValidator) (symbol : Option Symbol) :
    (self.check_symbol_of symbol).error = none ↔
      self.error = none ∧ resolves self.resolver symbol := by
  cases symbol with
  | none => simp [check_symbol_of, resolves]
  | some sym =>
    rw [check_symbol_of, check_symbol, resolves]
    split
    · rename_i hnone
      constructor
      · intro h
        exact absurd h (fault_error _ _)
      · rintro ⟨-, hsome⟩
        have hresolves := hsome sym rfl
        rw [hnone] at hresolves
        cases hresolves
    · rename_i hsome
      have hresolves := Option.isSome_iff_ne_none.mpr hsome
      simp [hresolves]

mutual

theorem visit_same (self : DocumentValidator) (node : Node) : self.Same (self.visit node) := by
  match node with
  | .spanned kind info symbol typed children =>
    have hspan := self.check_span_same kind info.span
    have hsymbol := (self.check_span kind info.span).check_symbol_of_same symbol
    rw [visit]
    split
    · split
      · exact ⟨rfl, rfl⟩
      · split
        · exact (hspan.trans hsymbol).trans (visitAll_same _ children)
        · exact hspan.trans (visitAll_same _ children)
    · exact visitAll_same self children
  | .bare .ParameterKind symbol typed children =>
    rw [visit]
    split
    · exact ⟨rfl, rfl⟩
    · exact (self.check_symbol_of_same symbol).trans (visitAll_same _ children)
  | .bare .ExcludeOperator symbol typed children => exact visitAll_same self children
  | .bare .Other symbol typed children => exact visitAll_same self children

theorem visitAll_same (self : DocumentValidator) (trees : List Node) :
    self.Same (visitAll self trees) := by
  match trees with
  | [] => exact ⟨rfl, rfl⟩
  | node :: rest => exact (visit_same self node).trans (visitAll_same _ rest)

end

theorem forall_mem_nodes (p : Node → Prop) (node : Node) :
    (∀ n ∈ node.nodes, p n) ↔ p node ∧ ∀ n ∈ Node.nodesAll node.children, p n := by
  rw [Node.nodes_eq]
  exact List.forall_mem_cons

mutual

/-- A visit leaves no fault exactly when there was none and every node passes. -/
theorem visit_error_iff (self : DocumentValidator) (node : Node) :
    (self.visit node).error = none ↔
      self.error = none ∧ ∀ n ∈ node.nodes, n.passes self.source_len self.resolver := by
  rw [forall_mem_nodes]
  match node with
  | .spanned kind info symbol typed children =>
    have hspan := self.check_span_same kind info.span
    have hsymbol := hspan.trans ((self.check_span kind info.span).check_symbol_of_same symbol)
    rw [visit]
    split
    · rename_i hchecks
      split
      · rename_i herror
        rw [Option.isSome_iff_ne_none] at herror
        simp [herror]
      · split
        · rename_i hchecks_symbol
          rw [visitAll_error_iff, hsymbol.1, hsymbol.2, check_symbol_of_error_iff,
            check_span_error_iff, hspan.2]
          simp only [Node.passes, hchecks, hchecks_symbol, forall_const, Node.children]
          tauto
        · rename_i hchecks_symbol
          rw [visitAll_error_iff, hspan.1, hspan.2, check_span_error_iff]
          simp only [Node.passes, hchecks, hchecks_symbol, forall_const, Node.children]
          tauto
    · rename_i hchecks
      have hchecks_symbol : ¬ kind.checks_symbol := by
        intro h
        exact hchecks (by rw [NodeKind.checks_span, h, Bool.or_true])
      rw [visitAll_error_iff]
      simp [Node.passes, hchecks, hchecks_symbol, Node.children]
  | .bare .ParameterKind symbol typed children =>
    have hsymbol := self.check_symbol_of_same symbol
    rw [visit]
    split
    · rename_i herror
      rw [Option.isSome_iff_ne_none] at herror
      simp [herror]
    · rw [visitAll_error_iff, hsymbol.1, hsymbol.2, check_symbol_of_error_iff]
      simp only [Node.passes, Node.children]
      tauto
  | .bare .ExcludeOperator symbol typed children =>
    rw [visit, visitAll_error_iff]
    · simp [Node.passes, Node.children]
    · intro h
      cases h
  | .bare .Other symbol typed children =>
    rw [visit, visitAll_error_iff]
    · simp [Node.passes, Node.children]
    · intro h
      cases h

theorem visitAll_error_iff (self : DocumentValidator) (trees : List Node) :
    (visitAll self trees).error = none ↔
      self.error = none ∧ ∀ n ∈ Node.nodesAll trees, n.passes self.source_len self.resolver := by
  match trees with
  | [] => simp [visitAll, Node.nodesAll]
  | node :: rest =>
    have hsame := self.visit_same node
    rw [visitAll, visitAll_error_iff, visit_error_iff, hsame.1, hsame.2, Node.nodesAll,
      List.forall_mem_append, and_assoc]

end

theorem visit_statements_error_iff (self : DocumentValidator) (statements : List Node) :
    (self.visit_statements statements).error = none ↔
      self.error = none ∧
        ∀ n ∈ Node.nodesAll statements, n.passes self.source_len self.resolver := by
  induction statements generalizing self with
  | nil => simp [visit_statements, Node.nodesAll]
  | cons statement rest ih =>
    have hsame := self.visit_same statement
    rw [visit_statements]
    split
    · rename_i herror
      rw [Option.isSome_iff_ne_none] at herror
      simp [herror]
    · rw [ih, visit_error_iff, hsame.1, hsame.2, Node.nodesAll, List.forall_mem_append, and_assoc]

end DocumentValidator

/-- A document is valid exactly when spans can address it and every node passes. -/
theorem validate_ok_iff (source : List Char) (resolver : List String) (statements : List Node) :
    validate source resolver statements = .ok () ↔ source_length source < 2 ^ 32 ∧
      ∀ n ∈ Node.nodesAll statements, n.passes (source_length source) resolver := by
  have herror := DocumentValidator.visit_statements_error_iff
    ⟨source_length source, resolver, 0, none⟩ statements
  unfold validate
  split
  · rename_i hlength
    dsimp only
    split
    · rename_i message hmessage
      rw [hmessage] at herror
      constructor
      · intro h
        cases h
      · intro h
        cases herror.mpr ⟨rfl, h.2⟩
    · rename_i hnone
      exact ⟨fun _ => ⟨hlength, (herror.mp hnone).2⟩, fun _ => rfl⟩
  · rename_i hlength
    constructor
    · intro h
      cases h
    · intro h
      exact absurd h.1 hlength

end squonk.document
