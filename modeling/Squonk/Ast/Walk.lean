import Mathlib

/-!
# The walk over expressions

Every kind of expression with the expressions and queries in it, as the generated walk goes over
them. Names, operators, types and spellings hold neither and are left out, and so is the record
around a single expression. Queries are a parameter.
-/

namespace squonk.ast.walk

/-- What the walk of a node goes on to. -/
inductive Part (E Q : Type)
  | expr (e : E)
  | query (q : Q)
  deriving DecidableEq

/-! ## Nodes over expressions -/

section Nodes

variable (E Q : Type)

inductive WindowFrameBound
  | CurrentRow
  | UnboundedPreceding
  | UnboundedFollowing
  | Preceding (offset : E)
  | Following (offset : E)

structure WindowFrame where
  start : WindowFrameBound E
  stop : Option (WindowFrameBound E)

structure WindowDefinition where
  partition_by : List E
  order_by : List E
  frame : Option (WindowFrame E)

inductive WindowSpec
  | Named
  | Inline (definition : WindowDefinition E)

structure FunctionCall where
  args : List E
  order_by : List E
  within_group : Option (List E)
  filter : Option E
  «over» : Option (WindowSpec E)

structure CaseExpr where
  operand : Option E
  when_clauses : List (E × E)
  else_result : Option E

structure SubscriptExpr where
  base : E
  lower : Option E
  upper : Option E
  step : Option E

inductive SemiStructuredPathSegment
  | Key
  | Index (index : E)

structure SemiStructuredAccessExpr where
  base : E
  path : List (SemiStructuredPathSegment E)

/-- The expressions that stand in for columns of a wildcard. -/
structure WildcardOptions where
  replace : List E

inductive ComprehensionSource
  | Expr (expr : E)
  | Star (options : Option (WildcardOptions E))

structure ListComprehension where
  element : E
  source : ComprehensionSource E
  filter : Option E

inductive ArrayExpr
  | Elements (elements : List E)
  | Subquery (query : Q)
  | Comprehension (comprehension : ListComprehension E)

structure JsonBehavior where
  default_expr : Option E

structure JsonFuncExpr where
  context : E
  path : E
  passing : List E
  on_empty : Option (JsonBehavior E)
  on_error : Option (JsonBehavior E)

structure JsonKeyValue where
  key : E
  value : E

inductive JsonArrayBody
  | Values (items : List E)
  | Query (query : Q)

inductive JsonAggregateBody
  | Object (entry : JsonKeyValue E)
  | Array (value : E) (order_by : List E)

structure JsonAggregateExpr where
  body : JsonAggregateBody E
  filter : Option E
  «over» : Option (WindowSpec E)

inductive XmlFunc
  | Element (attributes content : List E)
  | Forest (elements : List E)
  | Concat (args : List E)
  | Parse (arg : E)
  | Pi (content : Option E)
  | Root (arg : E) (version : Option E)
  | Serialize (arg : E)
  | Exists (path arg : E)

inductive StringFunc
  | Substring (expr : E) (start count : Option E)
  | SubstringSimilar (expr pattern escape : E)
  | Position (substr string : E)
  | Overlay (target replacement start : E) (count : Option E)
  | Trim (trim_chars : Option E) (sources : List E)
  | CollationFor (expr : E)
  | ConvertUsing (expr : E)
  | MatchAgainst (columns : List E) (against : E)
  | CeilTo (expr : E)
  | FloorTo (expr : E)

end Nodes

inductive Expr (Q : Type)
  | Column
  | Literal
  | BinaryOp (left right : Expr Q)
  | UnaryOp (expr : Expr Q)
  | Function (call : FunctionCall (Expr Q))
  | Case (case : CaseExpr (Expr Q))
  | Extract (source : Expr Q)
  | Cast (expr : Expr Q)
  | IsNull (expr : Expr Q)
  | IsTruth (expr : Expr Q)
  | IsNormalized (expr : Expr Q)
  | Between (expr low high : Expr Q)
  | Like (expr pattern : Expr Q) (escape : Option (Expr Q))
  | InList (expr : Expr Q) (list : List (Expr Q))
  | InSubquery (expr : Expr Q) (subquery : Q)
  | InExpr (expr rhs : Expr Q)
  | Exists (query : Q)
  | QuantifiedComparison (left : Expr Q) (subquery : Q)
  | QuantifiedList (left array : Expr Q)
  | QuantifiedLike (left pattern : Expr Q)
  | Subquery (query : Q)
  | Parameter
  | PositionalColumn
  | SessionVariable
  | Subscript (subscript : SubscriptExpr (Expr Q))
  | SemiStructuredAccess (semi_structured_access : SemiStructuredAccessExpr (Expr Q))
  | Collate (expr : Expr Q)
  | Interval (value : Expr Q)
  | AtTimeZone (expr zone : Expr Q)
  | Array (array : ArrayExpr (Expr Q) Q)
  | Struct (fields : List (Expr Q))
  | StructConstructor (args : List (Expr Q))
  | Map (entries : List (Expr Q × Expr Q))
  | Row (fields : List (Expr Q))
  | FieldSelection (base : Expr Q)
  | NamedOperator (left right : Expr Q)
  | PrefixOperator (operand : Expr Q)
  | PostfixOperator (operand : Expr Q)
  | Lambda (body : Expr Q)
  | Columns (pattern : Option (Expr Q)) (options : Option (WildcardOptions (Expr Q)))
  | SpecialFunction
  | JsonFunc (json_func : JsonFuncExpr (Expr Q))
  | JsonObject (entries : List (JsonKeyValue (Expr Q)))
  | JsonArray (body : JsonArrayBody (Expr Q) Q)
  | JsonAggregate (json_aggregate : JsonAggregateExpr (Expr Q))
  | JsonConstructor (value : Expr Q)
  | IsJson (expr : Expr Q)
  | XmlFunc (xml_func : XmlFunc (Expr Q))
  | IsDocument (expr : Expr Q)
  | StringFunc (string_func : StringFunc (Expr Q))

/-! ## Walks -/

section Walks

variable {E Q : Type}

def WindowFrameBound.exprs : WindowFrameBound E → List E
  | .Preceding offset | .Following offset => [offset]
  | _ => []

def WindowFrame.exprs (self : WindowFrame E) : List E :=
  self.start.exprs ++ self.stop.toList.flatMap WindowFrameBound.exprs

def WindowDefinition.exprs (self : WindowDefinition E) : List E :=
  self.partition_by ++ self.order_by ++ self.frame.toList.flatMap WindowFrame.exprs

def WindowSpec.exprs : WindowSpec E → List E
  | .Named => []
  | .Inline definition => definition.exprs

def FunctionCall.exprs (self : FunctionCall E) : List E :=
  self.args ++ self.order_by ++ self.within_group.toList.flatten ++ self.filter.toList ++
    self.«over».toList.flatMap WindowSpec.exprs

/-- The two expressions of each pair, one pair after the other. -/
def pairs (entries : List (E × E)) : List E := entries.flatMap fun (first, second) => [first, second]

def CaseExpr.exprs (self : CaseExpr E) : List E :=
  self.operand.toList ++ pairs self.when_clauses ++ self.else_result.toList

def SubscriptExpr.exprs (self : SubscriptExpr E) : List E :=
  self.base :: (self.lower.toList ++ self.upper.toList ++ self.step.toList)

def SemiStructuredPathSegment.exprs : SemiStructuredPathSegment E → List E
  | .Key => []
  | .Index index => [index]

def SemiStructuredAccessExpr.exprs (self : SemiStructuredAccessExpr E) : List E :=
  self.base :: self.path.flatMap SemiStructuredPathSegment.exprs

def ComprehensionSource.exprs : ComprehensionSource E → List E
  | .Expr expr => [expr]
  | .Star options => options.toList.flatMap WildcardOptions.replace

def ListComprehension.exprs (self : ListComprehension E) : List E :=
  self.element :: (self.source.exprs ++ self.filter.toList)

def JsonBehavior.exprs (self : JsonBehavior E) : List E := self.default_expr.toList

def JsonFuncExpr.exprs (self : JsonFuncExpr E) : List E :=
  self.context :: self.path :: (self.passing ++ self.on_empty.toList.flatMap JsonBehavior.exprs ++
    self.on_error.toList.flatMap JsonBehavior.exprs)

def JsonKeyValue.exprs (self : JsonKeyValue E) : List E := [self.key, self.value]

def JsonAggregateBody.exprs : JsonAggregateBody E → List E
  | .Object entry => entry.exprs
  | .Array value order_by => value :: order_by

def JsonAggregateExpr.exprs (self : JsonAggregateExpr E) : List E :=
  self.body.exprs ++ self.filter.toList ++ self.«over».toList.flatMap WindowSpec.exprs

def XmlFunc.exprs : XmlFunc E → List E
  | .Element attributes content => attributes ++ content
  | .Forest elements => elements
  | .Concat args => args
  | .Parse arg | .Serialize arg => [arg]
  | .Pi content => content.toList
  | .Root arg version => arg :: version.toList
  | .Exists path arg => [path, arg]

def StringFunc.exprs : StringFunc E → List E
  | .Substring expr start count => expr :: (start.toList ++ count.toList)
  | .SubstringSimilar expr pattern escape => [expr, pattern, escape]
  | .Position substr string => [substr, string]
  | .Overlay target replacement start count => [target, replacement, start] ++ count.toList
  | .Trim trim_chars sources => trim_chars.toList ++ sources
  | .CollationFor expr | .ConvertUsing expr | .CeilTo expr | .FloorTo expr => [expr]
  | .MatchAgainst columns against => columns ++ [against]

/-- What the walk of an expression goes on to, in its order. -/
def Expr.parts : Expr Q → List (Part (Expr Q) Q)
  | .Column | .Literal | .Parameter | .PositionalColumn | .SessionVariable | .SpecialFunction => []
  | .UnaryOp e | .Extract e | .Cast e | .IsNull e | .IsTruth e | .IsNormalized e | .Collate e
  | .Interval e | .FieldSelection e | .PrefixOperator e | .PostfixOperator e | .Lambda e
  | .JsonConstructor e | .IsJson e | .IsDocument e => [.expr e]
  | .BinaryOp l r | .InExpr l r | .QuantifiedList l r | .QuantifiedLike l r | .AtTimeZone l r
  | .NamedOperator l r => [.expr l, .expr r]
  | .Struct es | .StructConstructor es | .Row es => es.map .expr
  | .Function call => call.exprs.map .expr
  | .Case case => case.exprs.map .expr
  | .Between e low high => [.expr e, .expr low, .expr high]
  | .Like e pattern escape => ([e, pattern] ++ escape.toList).map .expr
  | .InList e list => (e :: list).map .expr
  | .InSubquery e subquery => [.expr e, .query subquery]
  | .Exists query | .Subquery query => [.query query]
  | .QuantifiedComparison left subquery => [.expr left, .query subquery]
  | .Subscript subscript => subscript.exprs.map .expr
  | .SemiStructuredAccess access => access.exprs.map .expr
  | .Array (.Elements elements) => elements.map .expr
  | .Array (.Subquery query) => [.query query]
  | .Array (.Comprehension comprehension) => comprehension.exprs.map .expr
  | .Map entries => (pairs entries).map .expr
  | .Columns pattern options =>
    (pattern.toList ++ options.toList.flatMap WildcardOptions.replace).map .expr
  | .JsonFunc json_func => json_func.exprs.map .expr
  | .JsonObject entries => (entries.flatMap JsonKeyValue.exprs).map .expr
  | .JsonArray (.Values items) => items.map .expr
  | .JsonArray (.Query query) => [.query query]
  | .JsonAggregate json_aggregate => json_aggregate.exprs.map .expr
  | .XmlFunc xml_func => xml_func.exprs.map .expr
  | .StringFunc string_func => string_func.exprs.map .expr

end Walks

/-! ## Sizes -/

section Sizes

variable {E : Type} [SizeOf E] {e : E}

theorem sizeOf_mem {es : List E} (h : e ∈ es) : sizeOf e < sizeOf es :=
  List.sizeOf_lt_of_mem h

theorem sizeOf_toList {o : Option E} (h : e ∈ o.toList) : sizeOf e < sizeOf o := by
  cases o with
  | none => cases h
  | some a =>
    rw [List.mem_singleton.mp h, Option.some.sizeOf_spec]
    omega

/-- Where each node is larger than the expressions in it, so is a list of them. -/
theorem sizeOf_flatMap {A : Type} [SizeOf A] {f : A → List E}
    (hf : ∀ a, ∀ e ∈ f a, sizeOf e < sizeOf a) {as : List A} (h : e ∈ as.flatMap f) :
    sizeOf e < sizeOf as := by
  obtain ⟨a, ha, he⟩ := List.mem_flatMap.mp h
  exact Nat.lt_trans (hf a e he) (List.sizeOf_lt_of_mem ha)

theorem sizeOf_option {A : Type} [SizeOf A] {f : A → List E}
    (hf : ∀ a, ∀ e ∈ f a, sizeOf e < sizeOf a) {o : Option A} (h : e ∈ o.toList.flatMap f) :
    sizeOf e < sizeOf o := by
  obtain ⟨a, ha, he⟩ := List.mem_flatMap.mp h
  exact Nat.lt_trans (hf a e he) (sizeOf_toList ha)

theorem sizeOf_flatten {o : Option (List E)} (h : e ∈ o.toList.flatten) : sizeOf e < sizeOf o := by
  cases o with
  | none => cases h
  | some es =>
    have := sizeOf_mem (List.append_nil es ▸ h : e ∈ es)
    rw [Option.some.sizeOf_spec]
    omega

theorem sizeOf_pairs {entries : List (E × E)} (h : e ∈ pairs entries) :
    sizeOf e < sizeOf entries := by
  refine sizeOf_flatMap (fun p e he => ?_) h
  simp only [List.mem_cons, List.not_mem_nil, or_false] at he
  rw [Prod.mk.sizeOf_spec]
  obtain rfl | rfl := he <;> omega

theorem WindowFrameBound.sizeOf_exprs (self : WindowFrameBound E) :
    ∀ e ∈ self.exprs, sizeOf e < sizeOf self := by
  cases self <;> simp [exprs]

theorem WindowFrame.sizeOf_exprs (self : WindowFrame E) :
    ∀ e ∈ self.exprs, sizeOf e < sizeOf self := by
  obtain ⟨start, stop⟩ := self
  intro e h
  simp only [exprs, List.mem_append] at h
  rw [mk.sizeOf_spec]
  obtain h | h := h
  · have := start.sizeOf_exprs e h
    omega
  · have := sizeOf_option WindowFrameBound.sizeOf_exprs h
    omega

theorem WindowDefinition.sizeOf_exprs (self : WindowDefinition E) :
    ∀ e ∈ self.exprs, sizeOf e < sizeOf self := by
  obtain ⟨partition_by, order_by, frame⟩ := self
  intro e h
  simp only [exprs, List.mem_append] at h
  rw [mk.sizeOf_spec]
  obtain (h | h) | h := h
  · have := sizeOf_mem h
    omega
  · have := sizeOf_mem h
    omega
  · have := sizeOf_option WindowFrame.sizeOf_exprs h
    omega

theorem WindowSpec.sizeOf_exprs (self : WindowSpec E) :
    ∀ e ∈ self.exprs, sizeOf e < sizeOf self := by
  intro e h
  cases self with
  | Named => cases h
  | Inline definition =>
    have := definition.sizeOf_exprs e h
    rw [Inline.sizeOf_spec]
    omega

theorem FunctionCall.sizeOf_exprs (self : FunctionCall E) :
    ∀ e ∈ self.exprs, sizeOf e < sizeOf self := by
  obtain ⟨args, order_by, within_group, filter, window⟩ := self
  intro e h
  simp only [exprs, List.mem_append] at h
  rw [mk.sizeOf_spec]
  obtain (((h | h) | h) | h) | h := h
  · have := sizeOf_mem h
    omega
  · have := sizeOf_mem h
    omega
  · have := sizeOf_flatten h
    omega
  · have := sizeOf_toList h
    omega
  · have := sizeOf_option WindowSpec.sizeOf_exprs h
    omega

theorem CaseExpr.sizeOf_exprs (self : CaseExpr E) :
    ∀ e ∈ self.exprs, sizeOf e < sizeOf self := by
  obtain ⟨operand, when_clauses, else_result⟩ := self
  intro e h
  simp only [exprs, List.mem_append] at h
  rw [mk.sizeOf_spec]
  obtain (h | h) | h := h
  · have := sizeOf_toList h
    omega
  · have := sizeOf_pairs h
    omega
  · have := sizeOf_toList h
    omega

theorem SubscriptExpr.sizeOf_exprs (self : SubscriptExpr E) :
    ∀ e ∈ self.exprs, sizeOf e < sizeOf self := by
  obtain ⟨base, lower, upper, step⟩ := self
  intro e h
  simp only [exprs, List.mem_cons, List.mem_append] at h
  rw [mk.sizeOf_spec]
  obtain rfl | (h | h) | h := h
  · omega
  all_goals
    have := sizeOf_toList h
    omega

theorem SemiStructuredPathSegment.sizeOf_exprs (self : SemiStructuredPathSegment E) :
    ∀ e ∈ self.exprs, sizeOf e < sizeOf self := by
  cases self <;> simp [exprs]

theorem SemiStructuredAccessExpr.sizeOf_exprs (self : SemiStructuredAccessExpr E) :
    ∀ e ∈ self.exprs, sizeOf e < sizeOf self := by
  obtain ⟨base, path⟩ := self
  intro e h
  simp only [exprs, List.mem_cons] at h
  rw [mk.sizeOf_spec]
  obtain rfl | h := h
  · omega
  · have := sizeOf_flatMap SemiStructuredPathSegment.sizeOf_exprs h
    omega

theorem WildcardOptions.sizeOf_replace (self : WildcardOptions E) :
    ∀ e ∈ self.replace, sizeOf e < sizeOf self := by
  intro e h
  have := sizeOf_mem h
  rw [mk.sizeOf_spec]
  omega

theorem ComprehensionSource.sizeOf_exprs (self : ComprehensionSource E) :
    ∀ e ∈ self.exprs, sizeOf e < sizeOf self := by
  intro e h
  cases self with
  | Expr expr =>
    rw [List.mem_singleton.mp h, Expr.sizeOf_spec]
    omega
  | Star options =>
    have := sizeOf_option WildcardOptions.sizeOf_replace h
    rw [Star.sizeOf_spec]
    omega

theorem ListComprehension.sizeOf_exprs (self : ListComprehension E) :
    ∀ e ∈ self.exprs, sizeOf e < sizeOf self := by
  obtain ⟨element, source, filter⟩ := self
  intro e h
  simp only [exprs, List.mem_cons, List.mem_append] at h
  rw [mk.sizeOf_spec]
  obtain rfl | h | h := h
  · omega
  · have := source.sizeOf_exprs e h
    omega
  · have := sizeOf_toList h
    omega

theorem JsonBehavior.sizeOf_exprs (self : JsonBehavior E) :
    ∀ e ∈ self.exprs, sizeOf e < sizeOf self := by
  intro e h
  have := sizeOf_toList h
  rw [mk.sizeOf_spec]
  omega

theorem JsonFuncExpr.sizeOf_exprs (self : JsonFuncExpr E) :
    ∀ e ∈ self.exprs, sizeOf e < sizeOf self := by
  obtain ⟨context, path, passing, on_empty, on_error⟩ := self
  intro e h
  simp only [exprs, List.mem_cons, List.mem_append] at h
  rw [mk.sizeOf_spec]
  obtain rfl | rfl | (h | h) | h := h
  · omega
  · omega
  · have := sizeOf_mem h
    omega
  · have := sizeOf_option JsonBehavior.sizeOf_exprs h
    omega
  · have := sizeOf_option JsonBehavior.sizeOf_exprs h
    omega

theorem JsonKeyValue.sizeOf_exprs (self : JsonKeyValue E) :
    ∀ e ∈ self.exprs, sizeOf e < sizeOf self := by
  intro e h
  simp only [exprs, List.mem_cons, List.not_mem_nil, or_false] at h
  rw [mk.sizeOf_spec]
  obtain rfl | rfl := h <;> omega

theorem JsonAggregateBody.sizeOf_exprs (self : JsonAggregateBody E) :
    ∀ e ∈ self.exprs, sizeOf e < sizeOf self := by
  intro e h
  cases self with
  | Object entry =>
    have := entry.sizeOf_exprs e h
    rw [Object.sizeOf_spec]
    omega
  | Array value order_by =>
    rw [Array.sizeOf_spec]
    obtain rfl | h := List.mem_cons.mp h
    · omega
    · have := sizeOf_mem h
      omega

theorem JsonAggregateExpr.sizeOf_exprs (self : JsonAggregateExpr E) :
    ∀ e ∈ self.exprs, sizeOf e < sizeOf self := by
  obtain ⟨body, filter, window⟩ := self
  intro e h
  simp only [exprs, List.mem_append] at h
  rw [mk.sizeOf_spec]
  obtain (h | h) | h := h
  · have := body.sizeOf_exprs e h
    omega
  · have := sizeOf_toList h
    omega
  · have := sizeOf_option WindowSpec.sizeOf_exprs h
    omega

theorem XmlFunc.sizeOf_exprs (self : XmlFunc E) : ∀ e ∈ self.exprs, sizeOf e < sizeOf self := by
  intro e h
  cases self with
  | Element attributes content =>
    rw [Element.sizeOf_spec]
    obtain h | h := List.mem_append.mp h
    all_goals
      have := sizeOf_mem h
      omega
  | Forest elements | Concat elements =>
    have : sizeOf e < sizeOf elements := sizeOf_mem h
    simp only [Forest.sizeOf_spec, Concat.sizeOf_spec]
    omega
  | Parse arg | Serialize arg =>
    rw [List.mem_singleton.mp h]
    simp only [Parse.sizeOf_spec, Serialize.sizeOf_spec]
    omega
  | Pi content =>
    have := sizeOf_toList h
    rw [Pi.sizeOf_spec]
    omega
  | Root arg version =>
    rw [Root.sizeOf_spec]
    obtain rfl | h := List.mem_cons.mp h
    · omega
    · have := sizeOf_toList h
      omega
  | Exists path arg =>
    simp only [exprs, List.mem_cons, List.not_mem_nil, or_false] at h
    rw [Exists.sizeOf_spec]
    obtain rfl | rfl := h <;> omega

theorem StringFunc.sizeOf_exprs (self : StringFunc E) :
    ∀ e ∈ self.exprs, sizeOf e < sizeOf self := by
  intro e h
  cases self with
  | Substring expr start count =>
    simp only [exprs, List.mem_cons, List.mem_append] at h
    rw [Substring.sizeOf_spec]
    obtain rfl | h | h := h
    · omega
    all_goals
      have := sizeOf_toList h
      omega
  | SubstringSimilar expr pattern escape =>
    simp only [exprs, List.mem_cons, List.not_mem_nil, or_false] at h
    rw [SubstringSimilar.sizeOf_spec]
    obtain rfl | rfl | rfl := h <;> omega
  | Position substr string =>
    simp only [exprs, List.mem_cons, List.not_mem_nil, or_false] at h
    rw [Position.sizeOf_spec]
    obtain rfl | rfl := h <;> omega
  | Overlay target replacement start count =>
    simp only [exprs, List.cons_append, List.nil_append, List.mem_cons] at h
    rw [Overlay.sizeOf_spec]
    obtain rfl | rfl | rfl | h := h
    · omega
    · omega
    · omega
    · have := sizeOf_toList h
      omega
  | Trim trim_chars sources =>
    rw [Trim.sizeOf_spec]
    obtain h | h := List.mem_append.mp h
    · have := sizeOf_toList h
      omega
    · have := sizeOf_mem h
      omega
  | CollationFor expr | ConvertUsing expr | CeilTo expr | FloorTo expr =>
    rw [List.mem_singleton.mp h]
    simp only [CollationFor.sizeOf_spec, ConvertUsing.sizeOf_spec, CeilTo.sizeOf_spec,
      FloorTo.sizeOf_spec]
    omega
  | MatchAgainst columns against =>
    rw [MatchAgainst.sizeOf_spec]
    obtain h | h := List.mem_append.mp h
    · have := sizeOf_mem h
      omega
    · rw [List.mem_singleton.mp h]
      omega

end Sizes

/-- The expressions that a walk goes on to are smaller. -/
theorem Expr.sizeOf_part {Q : Type} {e d : Expr Q} (h : .expr d ∈ e.parts) :
    sizeOf d < sizeOf e := by
  have hmap {es : List (Expr Q)} (h : .expr d ∈ es.map (Part.expr (Q := Q))) : d ∈ es := by
    obtain ⟨d', hd', heq⟩ := List.mem_map.mp h
    cases heq
    exact hd'
  cases e with
  | Function call =>
    have := call.sizeOf_exprs d (hmap h)
    rw [Function.sizeOf_spec]
    omega
  | Case case =>
    have := case.sizeOf_exprs d (hmap h)
    rw [Case.sizeOf_spec]
    omega
  | Subscript subscript =>
    have := subscript.sizeOf_exprs d (hmap h)
    rw [Subscript.sizeOf_spec]
    omega
  | SemiStructuredAccess access =>
    have := access.sizeOf_exprs d (hmap h)
    rw [SemiStructuredAccess.sizeOf_spec]
    omega
  | JsonFunc json_func =>
    have := json_func.sizeOf_exprs d (hmap h)
    rw [JsonFunc.sizeOf_spec]
    omega
  | JsonObject entries =>
    have := sizeOf_flatMap JsonKeyValue.sizeOf_exprs (hmap h)
    rw [JsonObject.sizeOf_spec]
    omega
  | JsonAggregate json_aggregate =>
    have := json_aggregate.sizeOf_exprs d (hmap h)
    rw [JsonAggregate.sizeOf_spec]
    omega
  | XmlFunc xml_func =>
    have := xml_func.sizeOf_exprs d (hmap h)
    rw [XmlFunc.sizeOf_spec]
    omega
  | StringFunc string_func =>
    have := string_func.sizeOf_exprs d (hmap h)
    rw [StringFunc.sizeOf_spec]
    omega
  | Columns pattern options =>
    rw [Columns.sizeOf_spec]
    obtain h | h := List.mem_append.mp (hmap h)
    · have := sizeOf_toList h
      omega
    · have := sizeOf_option WildcardOptions.sizeOf_replace h
      omega
  | Array array =>
    cases array with
    | Elements elements =>
      have := sizeOf_mem (hmap h)
      rw [Array.sizeOf_spec, ArrayExpr.Elements.sizeOf_spec]
      omega
    | Subquery query => cases h with | tail _ h => cases h
    | Comprehension comprehension =>
      have := comprehension.sizeOf_exprs d (hmap h)
      rw [Array.sizeOf_spec, ArrayExpr.Comprehension.sizeOf_spec]
      omega
  | JsonArray body =>
    cases body with
    | Values items =>
      have := sizeOf_mem (hmap h)
      rw [JsonArray.sizeOf_spec, JsonArrayBody.Values.sizeOf_spec]
      omega
    | Query query => cases h with | tail _ h => cases h
  | Like e pattern escape =>
    have hparts := hmap h
    simp only [List.cons_append, List.nil_append, List.mem_cons] at hparts
    rw [Like.sizeOf_spec]
    obtain rfl | rfl | h := hparts
    · omega
    · omega
    · have := sizeOf_toList h
      omega
  | InList e list =>
    rw [InList.sizeOf_spec]
    obtain rfl | h := List.mem_cons.mp (hmap h)
    · omega
    · have := sizeOf_mem h
      omega
  | Map entries =>
    have := sizeOf_pairs (hmap h)
    rw [Map.sizeOf_spec]
    omega
  | Struct es =>
    have := sizeOf_mem (hmap h)
    rw [Struct.sizeOf_spec]
    omega
  | StructConstructor es =>
    have := sizeOf_mem (hmap h)
    rw [StructConstructor.sizeOf_spec]
    omega
  | Row es =>
    have := sizeOf_mem (hmap h)
    rw [Row.sizeOf_spec]
    omega
  | _ =>
    simp only [parts, List.mem_cons, List.not_mem_nil, or_false, Part.expr.injEq,
      reduceCtorEq] at h
    all_goals
      first
        | subst h
        | obtain rfl | rfl := h
        | obtain rfl | rfl | rfl := h
      all_goals simp +arith

end squonk.ast.walk
