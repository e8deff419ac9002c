import Mathlib.Algebra.Order.Ring.Nat
import Mathlib.Data.List.Basic
import Squonk.Interner.Basic

/-!
# Statement trees

A statement as the walks over it see it: nodes with a span, a symbol where their type has one,
and their children in the order of the walk.
-/

open squonk.interner

namespace squonk.document

structure Span where
  start : Nat
  stop : Nat
  deriving DecidableEq

/-- The span of a node that no text stands for. -/
def Span.SYNTHETIC : Span := ⟨2 ^ 32 - 1, 0⟩

def Span.is_synthetic (self : Span) : Bool := self == SYNTHETIC

structure Meta where
  span : Span
  node_id : Nat
  deriving DecidableEq

/-- The node types with a span of their own. -/
inductive NodeKind
  | SessionStatement | SetVariableAssignment | SetVariableValue | SetCharacterSetValue | SetValue
  | SetParameterValue | SpecialSetValue | ConstraintsTarget | SetNamesValue | ConfigParameter
  | AlterSystem | AlterSystemAction | AccessControlStatement | PrivilegeLevelObject
  | PrivilegeLevel | GrantAs | WithRoleSpec | Privileges | Privilege | GrantObject
  | RoutineSignature | Grantee | RoleSpec | CreateUser | UserSpec | AuthOption | AlterUser
  | AlterUserSpec | DefaultRoleTarget | UserRoleList | TlsRequirement | TlsOption | ResourceLimit
  | PasswordLockOption | UserAttribute | CreateTable | CreateTableBody | PartitionSpec
  | PartitionElem | PartitionBound | TableElement | TableLikeOption | ColumnDef
  | ColumnConstraint | ConstraintCharacteristics | ColumnOption | ForeignKeyRef
  | ReferentialAction | GeneratedColumn | IdentityColumn | IdentityOption | TableConstraintDef
  | TableConstraint | ExcludeConstraint | ExcludeElement | CreateTableOption
  | CreateTableOptionKind | TableOption | TableOptionValue | TableStorageParameter | AlterTable
  | AlterColumnTarget | AlterTableAction | AlterColumnAction | DropStatement | DropTransform
  | CommentOnStatement | CreateSchema | CreateView | RefreshMaterializedView
  | CreateColocationGroup | DropColocationGroup | AlterView | CreateSecret | SecretOption
  | DropSecretStmt | CreateVirtualTable | ModuleArg | CreateIndex | IndexColumn | CreateTrigger
  | TriggerEvent | CreateStoredTrigger | TriggerOrder | CreateDatabase | CreateFunction
  | FunctionParam | FunctionParamDefault | FunctionOption | FunctionBody | Definer
  | CreateProcedure | AlterRoutine | EventSchedule | CreateEvent | AlterEvent | DropEvent
  | DropDatabase | DropIndexOnTable | CreateMacro | MacroParam | MacroBody | CreateType
  | CreateTypeDefinition | CreateSequence | CreateExtension | CreateExtensionOption
  | ExtensionVersion | AlterExtension | AlterExtensionAction | AlterDatabase
  | AlterDatabaseAction | AlterSequence | AlterSequenceOption | AlterObjectSchema
  | ObjectReference | AggregateArgs | OperatorArgs | AlterObjectDepends | CreateServer
  | AlterServer | DropServer | ServerOption | AlterInstance | AlterInstanceAction
  | CreateSpatialReferenceSystem | SrsAttribute | DropSpatialReferenceSystem
  | CreateResourceGroup | AlterResourceGroup | DropResourceGroup | ResourceGroupVcpu | VcpuRange
  | ResourceGroupThreadPriority | AlterDatabaseOptions | AlterDatabaseOption | SizeLiteral
  | TablespaceOption | CreateTablespace | AlterTablespace | AlterTablespaceAction
  | DropTablespace | CreateLogfileGroup | AlterLogfileGroup | DropLogfileGroup | Insert
  | InsertTarget | InsertSource | InsertValues | InsertValue | DmlTarget | Update
  | UpdateAssignment | UpdateValue | UpdateTupleSource | Delete | DmlSelection | DefaultValue
  | Returning | Upsert | OnConflict | ConflictTarget | ConflictAction | Merge | MergeWhenClause
  | MergeAction | Expr | SubscriptExpr | SemiStructuredAccessExpr | SemiStructuredPathSegment
  | CollateExpr | AtTimeZoneExpr | ArrayExpr | ListComprehension | ComprehensionSource
  | StructExpr | StructField | StructConstructorExpr | StructConstructorField
  | StructConstructorArg | MapExpr | MapEntry | RowExpr | FieldSelectionExpr | FieldSelector
  | NamedOperatorExpr | PrefixOperatorExpr | PostfixOperatorExpr | LambdaExpr | FunctionCall
  | FunctionArg | CaseExpr | WhenClause | ExtractExpr | JsonValueExpr | JsonReturning
  | JsonPassingArg | JsonBehavior | JsonFuncExpr | JsonKeyValue | JsonObjectExpr | JsonArrayBody
  | JsonArrayExpr | JsonAggregateBody | JsonAggregateExpr | JsonConstructorExpr | IsJsonExpr
  | XmlFunc | XmlAttribute | StringFunc | Ident | Literal | MatchRecognize | Measure
  | AfterMatchSkip | SubsetDefinition | SymbolDefinition | MatchRecognizePattern | PipeOperator
  | PipeAggregateExpr | PipeRenameItem | Pivot | Unpivot | PivotExpr | PivotColumn
  | PivotValueSource | UnpivotColumn | Query | LockingClause | SetExpr | With | Cte
  | CteSearchClause | CteCycleClause | CteCycleMark | CteBody | Values | ValuesItem | Select
  | IntoTarget | GroupByItem | SelectItem | WildcardOptions | WildcardReplace | WildcardRename
  | SelectDistinct | TableWithJoins | TableAlias | TableSample | TableVersion | SampleClause
  | TableFunctionColumn | RowsFromItem | IndexHint | IndexedBy | TableHint | ForceSeekTarget
  | TableFactor | ShowRef | ShowRefTarget | JsonTable | JsonTableColumn | XmlTable | XmlNamespace
  | XmlTableColumn | OpenJson | OpenJsonColumn | Join | JoinOperator | JoinConstraint
  | OrderByExpr | OrderByUsing | OrderByAll | Limit | LimitBy | Setting | FormatClause
  | ForClause | ForXmlMode | ForRoot | LateralView | HierarchicalClause | ReplicationStatement
  | ReplicationFilterRule | RewriteDbPair | ReplicaThreadOption | ReplicaUntilCondition
  | GroupReplicationOption | Statement | CompoundStatement | Declaration | ConditionValue
  | HandlerCondition | IfStatement | ConditionalBranch | CaseStatement | LoopStatement
  | WhileStatement | RepeatStatement | LeaveStatement | IterateStatement | ReturnStatement
  | OpenCursorStatement | CloseCursorStatement | FetchCursorStatement | SignalStatement
  | SignalItem | GetDiagnosticsStatement | DiagnosticsInfo | StatementInfoItem
  | ConditionInfoItem | TransactionStatement | TransactionMode | XaStatement | Xid | DataType
  | StructTypeField | CharsetAnnotation | CopyStatement | CopySource | CopyTarget | CopyOption
  | CopyOptionValue | CopyIntoStatement | CopyIntoTarget | CopyIntoSource | ExportStatement
  | ImportStatement | ExplainStatement | ExplainOption | DescribeStatement | DescribeColumn
  | KillStatement | InstallStatement | UninstallStatement | InstallComponentSetValue
  | HandlerStatement | HandlerOperation | HandlerReadSelector | CloneStatement
  | CloneDataDirectory | ImportTableStatement | HelpStatement | BinlogStatement | PragmaStatement
  | AttachStatement | DetachStatement | CheckpointStatement | LoadStatement | LoadTarget
  | UpdateExtensionsStatement | VacuumStatement | ReindexStatement | AnalyzeStatement
  | TableMaintenanceStatement | TableMaintenanceKind | AnalyzeHistogram | CacheIndexStatement
  | CacheIndexTargets | CacheIndexTable | LoadIndexStatement | LoadIndexTargets | LoadIndexTable
  | CacheIndexKeyList | KeyCacheName | PartitionSelection | RenameStatement | TableRename
  | UserRename | AccountName | FlushStatement | FlushTarget | FlushOption | PurgeStatement
  | PurgeTarget | UseStatement | PrepareStatement | PrepareFromStatement | PrepareSource
  | ExecuteStatement | ExecuteUsingStatement | CallStatement | DeallocateStatement | DoStatement
  | DoArg | LanguageName | DoExpressionsStatement | LockTablesStatement | TableLock
  | UnlockTablesStatement | InstanceLockStatement | LoadDataStatement | LoadDataFields
  | LoadDataEnclosed | LoadDataLines | LoadDataIgnoreRows | LoadDataFieldOrVar | ShowStatement
  | ShowTarget | ShowFunctionsFilter | ShowFrom | ShowFilter | ShowLimit | WindowSpec
  | WindowDefinition | WindowFrame | WindowFrameBound | NamedWindow
  deriving DecidableEq

/-- The node types without one that still have a symbol, and all others. -/
inductive BareKind
  | ParameterKind | ExcludeOperator | Other
  deriving DecidableEq

/-- The node types with a symbol among their own fields. -/
def NodeKind.bears_symbol : NodeKind → Bool
  | .Ident | .Expr | .FunctionArg | .NamedOperatorExpr | .PrefixOperatorExpr
  | .PostfixOperatorExpr | .StructField | .ModuleArg | .ObjectReference | .OrderByUsing => true
  | _ => false

def BareKind.bears_symbol : BareKind → Bool
  | .ParameterKind | .ExcludeOperator => true
  | .Other => false

inductive Node
  | spanned (kind : NodeKind) (info : Meta) (symbol : Option Symbol)
      (typed : symbol.isSome → kind.bears_symbol) (children : List Node)
  | bare (kind : BareKind) (symbol : Option Symbol)
      (typed : symbol.isSome → kind.bears_symbol) (children : List Node)

namespace Node

def children : Node → List Node
  | spanned _ _ _ _ children => children
  | bare _ _ _ children => children

mutual

/-- The nodes of a tree. -/
def nodes : Node → List Node
  | spanned kind info symbol typed children =>
    spanned kind info symbol typed children :: nodesAll children
  | bare kind symbol typed children => bare kind symbol typed children :: nodesAll children

/-- The nodes of some trees. -/
def nodesAll : List Node → List Node
  | [] => []
  | node :: rest => node.nodes ++ nodesAll rest

end

def span : Node → Option Span
  | spanned _ info _ _ _ => some info.span
  | bare _ _ _ _ => none

def symbol : Node → Option Symbol
  | spanned _ _ symbol _ _ => symbol
  | bare _ symbol _ _ => symbol

theorem nodes_eq (node : Node) : node.nodes = node :: nodesAll node.children := by
  cases node <;> rw [nodes] <;> rfl

theorem mem_nodes_self (node : Node) : node ∈ node.nodes := by
  rw [nodes_eq]
  exact List.mem_cons_self

end Node

end squonk.document
