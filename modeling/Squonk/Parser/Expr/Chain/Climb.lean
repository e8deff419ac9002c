import Squonk.Parser.Expr.Reader

/-!
# The climb over every operator

The precedence climb with all of its operators: predicates, quantified and membership tests,
accesses, and the operators a dialect adds by a hook. Of the tree it builds it looks only at
the node on top of the left operand. The grammars it calls (names, literals, calls, queries,
types) are parameters; an expression inside one of them is read by a climb of its own.
-/

open squonk.ast squonk.tokenizer squonk.dialect squonk.precedence climbing

namespace squonk.parser.expr.chain

/-! ## What is read -/

/-- How the operators of an expression are restricted where it stands. -/
structure Mode where
  /-- Only the operators of PostgreSQL's `b_expr` are read. -/
  restrict_b_expr : Bool
  /-- A `.*` belongs to the projection around the expression. -/
  suppress_value_star : Bool
  deriving DecidableEq

/-- The mode every nested expression starts in. -/
def Mode.full : Mode := ⟨false, false⟩

inductive Quantifier | Any | All | Some
  deriving DecidableEq

inductive JsonItemType | Any | Value | Array | Object | Scalar
  deriving DecidableEq

inductive NormalizationForm | Nfc | Nfd | Nfkc | Nfkd
  deriving DecidableEq

/-- The node on top of an expression. -/
inductive Node
  | BinaryOp (op : BinaryOperator)
  | QuantifiedComparison (op : BinaryOperator) | QuantifiedList (op : BinaryOperator)
  | InSubquery | InList | InExpr | Between | Like | QuantifiedLike
  | IsNull | IsTruth | IsNormalized | IsJson | IsDocument
  | UnaryOp | PrefixOperator | PostfixOperator | NamedOperator | Lambda
  | AtTimeZone
  /-- A cast, a subscript, a collation or a selected field. -/
  | Access (op : PostfixOp)
  | Column (parts : Nat)
  /-- A row, with whether all of its fields are names. -/
  | Row (fields : Nat) (names : Bool)
  | Case
  /-- A dialect's own node, with the rank the dialect reports for it. -/
  | Other (rank : Option BindingPower)
  /-- Any other operand. -/
  | Primary
  deriving DecidableEq

/-- An operator with an operand on both sides. -/
inductive Binary
  | known (o : Infix)
  | like_quantified (negated : Bool) (spelling : LikeSpelling) (quantifier : Quantifier)
  /-- A membership test without parentheses. -/
  | in_expr (negated : Bool)
  | overlaps
  /-- An operator of a dialect's hook, which ranks its node as it is climbed. -/
  | custom (rank : BindingPower)
  deriving DecidableEq

/-- An operator behind its only operand. -/
inductive Suffix
  | known (q : Postfix)
  | is_json (negated : Bool) (item_type : JsonItemType) (unique_keys : Bool)
  | is_document (negated : Bool)
  | is_normalized (negated : Bool) (form : Option NormalizationForm)
  | in_list (negated : Bool)
  | in_subquery (negated : Bool)
  | quantified_list (op : BinaryOperator) (quantifier : Quantifier)
  | quantified_subquery (op : BinaryOperator) (quantifier : Quantifier)
  | access (op : PostfixOp)
  deriving DecidableEq

/-- An expression as it is written, down to the operands of other grammars. -/
abbrev Written := Cst Node Prefix Binary Suffix

/-- What stands behind a left operand: an operator with its right operands. -/
inductive Tail
  | inf (o : Binary) (r : Written)
  | mix (o : Binary) (m r : Written)
  | post (q : Suffix)

def Tail.attach (lhs : Written) : Tail → Written
  | .inf o r => .inf lhs o r
  | .mix o m r => .mix lhs o m r
  | .post q => .post lhs q

def Tail.operator : Tail → Binary ⊕ Suffix
  | .inf o _ | .mix o _ _ => .inl o
  | .post q => .inr q

/-- The grammars around the climb. The first argument is the recursion limit that is left. -/
structure Grammar where
  /-- An operand that is neither in parentheses of its own nor behind a prefix operator. -/
  primary : Nat → Mode → List Token → Option (Node × List Token)
  /-- The list or query in parentheses behind `IN`, and whether it is a query. -/
  membership : Nat → List Token → Option (Bool × List Token)
  /-- The list or query in parentheses behind a quantifier, and whether it is a query. -/
  quantified : Nat → List Token → Option (Bool × List Token)
  /-- A postfix operator other than `AT TIME ZONE`, up to its end. -/
  access : Nat → PostfixOp → List Token → Option (List Token)
  /-- The rank of the dialect's own infix operator at the token, with what follows it. -/
  peek_infix_operator_hook : Token → List Token → Option BindingPower

/-! ## The node on top -/

/-- Whether a left operand has the shape of a lambda's parameters. -/
def lambda_params : Node → Bool
  | .Column 1 => true
  | .Row fields names => fields != 0 && names
  | _ => false

def is_two_element_row (lhs : Node) : Bool :=
  match lhs with
  | .Row 2 _ => true
  | _ => false

/-- What `lhs op right` builds, an arrow behind parameters being a lambda. -/
def infix_node (features : FeatureSet) (lhs : Node) (op : BinaryOperator) : Node :=
  if op == .JsonGet && features.operator_syntax.lambda_expressions && lambda_params lhs then .Lambda
  else .BinaryOp op

def Binary.node (features : FeatureSet) (lhs : Node) : Binary → Node
  | .known (.symbol _ means) | .known (.word _ means) => infix_node features lhs means
  | .known (.bare _) | .known (.construct _ _) => .NamedOperator
  | .known (.distinct negated) => .BinaryOp (distinct_operator negated)
  | .known (.equality negated) => .BinaryOp (equality_operator negated)
  | .known (.negated_word _ _) => .UnaryOp
  | .known (.between _ _) => .Between
  | .known (.like _ _) => .Like
  | .known .at_time_zone => .AtTimeZone
  | .like_quantified _ _ _ => .QuantifiedLike
  | .in_expr _ => .InExpr
  | .overlaps => .BinaryOp .Overlaps
  | .custom rank => .Other (some rank)

def Suffix.node : Suffix → Node
  | .known (.is_null _) | .known (.null_word _) | .known .not_null => .IsNull
  | .known (.truth _ _) => .IsTruth
  | .known (.collate _) => .Access .Collate
  | .known (.symbol _) => .PostfixOperator
  | .is_json _ _ _ => .IsJson
  | .is_document _ => .IsDocument
  | .is_normalized _ _ => .IsNormalized
  | .in_list _ => .InList
  | .in_subquery _ => .InSubquery
  | .quantified_list op _ => .QuantifiedList op
  | .quantified_subquery op _ => .QuantifiedComparison op
  | .access op => .Access op

def node (features : FeatureSet) : Written → Node
  | .atom n => n
  | .group c => node features c
  | .pre (.unary _) _ => .UnaryOp
  | .pre (.symbol _) _ => .PrefixOperator
  | .inf l o _ => o.node features (node features l)
  | .mix l o _ _ => o.node features (node features l)
  | .post _ q => q.node

/-! ## Chains -/

/-- Whether the operator on top of `lhs` would chain onto one at `level`. -/
def lhs_chains_nonassoc (features : FeatureSet) (lhs : Node) (level : Nat) : Bool :=
  let chains (bp : BindingPower) := bp.assoc == .NonAssoc && bp.left == level
  match lhs with
  | .BinaryOp op | .QuantifiedComparison op | .QuantifiedList op =>
    chains (features.binding_power op)
  | .InSubquery | .InList | .Between | .Like | .QuantifiedLike =>
    chains features.binding_powers.range_predicate
  | .IsNull | .IsTruth | .IsNormalized => chains features.binding_powers.predicate
  | .Other (some bp) => chains bp
  | _ => false

def reject_nonassoc_chain (features : FeatureSet) (lhs : Written) (bp : BindingPower) : Bool :=
  bp.assoc == .NonAssoc && !lhs.isGroup && lhs_chains_nonassoc features (node features lhs) bp.left

/-! ## Operands -/

/-- A reader of expressions of at least a binding power. -/
abbrev Climb := Mode → Nat → List Token → Option (Written × List Token)

section Operands

variable (G : Grammar) (features : FeatureSet) (climb : Climb) (depth : Nat) (mode : Mode)

/-- Read an operand; the parentheses around an expression lift every restriction. -/
def parse_prefix (ts : List Token) : Option (Written × List Token) :=
  match G.primary depth mode ts with
  | some (n, rest) => some (.atom n, rest)
  | none =>
    match ts with
    | [] => none
    | t :: rest =>
      if t = .lparen then
        match climb .full 0 rest with
        | some (c, .rparen :: rest) => some (.group c, rest)
        | _ => none
      else if mode.restrict_b_expr && t == .keyword .Not then none
      else
        match prefix_operator features t with
        | some p => (climb mode (p.power features) rest).map fun (c, rest) => (.pre p c, rest)
        | none => none

/-- The subscripts behind the operand of a membership test. -/
def parse_subscripts : Nat → Written → List Token → Option (Written × List Token)
  | 0, c, ts => some (c, ts)
  | turns + 1, c, ts =>
    if features.expression_syntax.subscript && peek_nth_is_punct 0 .LBracket ts then
      match G.access depth .Subscript ts with
      | some ts => parse_subscripts turns (.post c (.access .Subscript)) ts
      | none => none
    else some (c, ts)

def parse_in_expr_rhs (ts : List Token) : Option (Written × List Token) :=
  match parse_prefix G features climb depth mode ts with
  | some (c, ts) => parse_subscripts G features depth ts.length c ts
  | none => none

/-- The quantifier at the front, where the dialect has them. -/
def parse_quantifier (ts : List Token) : Option (Quantifier × List Token) :=
  if features.operator_syntax.quantified_comparisons then
    match ts with
    | .keyword .Any :: ts => some (.Any, ts)
    | .keyword .All :: ts => some (.All, ts)
    | .keyword .Some :: ts => some (.Some, ts)
    | _ => none
  else none

/-- The right operands of an operator, behind the tokens that name it. -/
def parse_binary (o : Binary) (ts : List Token) : Option (Tail × List Token) :=
  let powers := features.binding_powers
  match o with
  | .known (.between _ _) =>
    match climb mode powers.range_predicate.right ts with
    | some (low, .keyword .And :: ts) =>
      (climb mode powers.range_predicate.right ts).map fun (high, ts) => (.mix o low high, ts)
    | _ => none
  | .known (.like _ _) =>
    match climb mode powers.range_predicate.right ts with
    | some (pattern, ts) =>
      if peek_is_keyword .Escape ts then
        (climb mode powers.range_predicate.right ts.tail).map fun (escape, ts) =>
          (.mix o pattern escape, ts)
      else some (.inf o pattern, ts)
    | none => none
  | .known o' => (climb mode (right_power features o') ts).map fun (r, ts) => (.inf o r, ts)
  | .like_quantified _ _ _ =>
    match ts with
    | .lparen :: ts =>
      match climb .full 0 ts with
      | some (c, .rparen :: ts) => some (.inf o (.group c), ts)
      | _ => none
    | _ => none
  | .in_expr _ =>
    (parse_in_expr_rhs G features climb depth mode ts).map fun (r, ts) => (.inf o r, ts)
  | .overlaps =>
    match parse_prefix G features climb depth mode ts with
    | some (r, ts) =>
      if r.isGroup || !is_two_element_row (node features r) then none else some (.inf o r, ts)
    | none => none
  | .custom rank => (climb mode rank.right ts).map fun (r, ts) => (.inf o r, ts)

end Operands

/-! ## Predicates -/

def json_item_type : List Token → JsonItemType × List Token
  | .keyword .Value :: ts => (.Value, ts)
  | .keyword .Array :: ts => (.Array, ts)
  | .keyword .Object :: ts => (.Object, ts)
  | .keyword .Scalar :: ts => (.Scalar, ts)
  | ts => (.Any, ts)

/-- `WITH` or `WITHOUT UNIQUE [KEYS]`, the default being `WITHOUT`. -/
def parse_json_unique : List Token → Bool × List Token
  | .keyword .With :: .keyword .Unique :: ts => (true, (eat_keyword .Keys ts).2)
  | .keyword .Without :: .keyword .Unique :: ts => (false, (eat_keyword .Keys ts).2)
  | ts => (false, ts)

def normalization_form : List Token → Option NormalizationForm
  | .keyword .Nfc :: _ => some .Nfc
  | .keyword .Nfd :: _ => some .Nfd
  | .keyword .Nfkc :: _ => some .Nfkc
  | .keyword .Nfkd :: _ => some .Nfkd
  | _ => none

/-- The operators of the plain predicates. -/
def known : Infix ⊕ Postfix → Binary ⊕ Suffix := Sum.map Binary.known Suffix.known

/-- The predicate behind `IS` and an optional `NOT`. -/
def parse_is_head (features : FeatureSet) (negated : Bool) (ts : List Token) :
    Option ((Binary ⊕ Suffix) × List Token) :=
  if features.call_syntax.sqljson_expression_functions && peek_is_keyword .Json ts then
    let (item_type, rest) := json_item_type ts.tail
    let (unique_keys, rest) := parse_json_unique rest
    some (.inr (.is_json negated item_type unique_keys), rest)
  else if features.call_syntax.xml_expression_functions && peek_is_keyword .Document ts then
    some (.inr (.is_document negated), ts.tail)
  else if features.predicate_syntax.is_normalized && peek_normalized ts then
    match normalization_form ts with
    | some form => some (.inr (.is_normalized negated (some form)), ts.drop 2)
    | none => some (.inr (.is_normalized negated none), ts.tail)
  else (is_predicate features negated ts).map fun (k, rest) => (known k, rest)

/-- A pattern match whose pattern is quantified. -/
def parse_quantified_like_head (features : FeatureSet) (negated : Bool) (ts : List Token) :
    Option (Binary × List Token) :=
  let spelled (spelling : LikeSpelling) :=
    (parse_quantifier features ts.tail).map fun (quantifier, rest) =>
      (Binary.like_quantified negated spelling quantifier, rest)
  if !features.predicate_syntax.pattern_match_quantifier then none
  else if features.predicate_syntax.like && peek_is_keyword .Like ts then spelled .Like
  else if features.predicate_syntax.ilike && peek_is_keyword .Ilike ts then spelled .ILike
  else none

/-- The predicate at the front, up to its operands. -/
def parse_predicate_head (features : FeatureSet) (ts : List Token) :
    Option ((Binary ⊕ Suffix) × List Token) :=
  if peek_is_keyword .Is ts then
    let (negated, rest) := eat_keyword .Not ts.tail
    parse_is_head features negated rest
  else
    let (negated, rest) := eat_keyword .Not ts
    match parse_quantified_like_head features negated rest with
    | some (o, rest) => some (.inl o, rest)
    | none => (expr.parse_predicate_head features ts).map fun (k, rest) => (known k, rest)

section Turns

variable (G : Grammar) (features : FeatureSet) (climb : Climb) (depth : Nat) (mode : Mode)

/-- `IN` and what it tests membership of, in parentheses. -/
def parse_in (ts : List Token) : Option (Tail × List Token) :=
  let (negated, rest) := eat_keyword .Not ts
  (G.membership depth rest.tail).map fun (subquery, rest) =>
    (.post (bif subquery then .in_subquery negated else .in_list negated), rest)

/-- A predicate behind `lhs`, with its operands. -/
def parse_predicate (lhs : Written) (ts : List Token) : Option (Tail × List Token) :=
  if peek_overlaps features ts then
    if lhs.isGroup || !is_two_element_row (node features lhs) then none
    else parse_binary G features climb depth mode .overlaps ts.tail
  else if peek_is_keyword .In (eat_keyword .Not ts).2 then parse_in G depth ts
  else
    match parse_predicate_head features ts with
    | some (.inl o, rest) => parse_binary G features climb depth mode o rest
    | some (.inr q, rest) => some (.post q, rest)
    | none => none

/-- The one predicate of `b_expr`. -/
def peek_starts_is_distinct_predicate (ts : List Token) : Bool :=
  peek_is_keyword .Is ts &&
    (peek_nth_is_keyword 1 .Distinct ts ||
      (peek_nth_is_keyword 1 .Not ts && peek_nth_is_keyword 2 .Distinct ts))

/-! ## Other operators -/

def parse_unparenthesized_in_list (ts : List Token) : Option (Tail × List Token) :=
  let (negated, rest) := eat_keyword .Not ts
  parse_binary G features climb depth mode (.in_expr negated) rest.tail

def parse_postfix (lhs : Written) (op : PostfixOp) (ts : List Token) :
    Option (Tail × List Token) :=
  if op == .Subscript && !lhs.isGroup && node features lhs == .Case then none
  else if op == .AtTimeZone then
    parse_binary G features climb depth mode (.known .at_time_zone) (ts.drop 3)
  else (G.access depth op ts).map fun rest => (.post (.access op), rest)

/-- Whether an operand starts behind the operator at the front. -/
def peek_operand_follows_operator (ts : List Token) : Bool :=
  match ts.tail with
  | .word _ :: _ | .quoted_ident _ :: _ | .number _ :: _ | .string _ :: _ | .parameter _ :: _
  | .lparen :: _ => true
  | rest => ( parse_prefix G features climb depth mode rest).isSome

def peek_postfix_symbolic_operator (ts : List Token) : Option Operator :=
  match ts with
  | .operator op :: _ =>
    if is_postfix_symbolic_operator op &&
        !peek_operand_follows_operator G features climb depth mode ts then
      some op
    else none
  | _ => none

/-- The operand of a quantified operator behind its quantifier. -/
def parse_quantified_operator_tail (op : BinaryOperator) (quantifier : Quantifier)
    (ts : List Token) : Option (Tail × List Token) :=
  match G.quantified depth ts with
  | some (true, rest) => some (.post (.quantified_subquery op quantifier), rest)
  | some (false, rest) =>
    if features.operator_syntax.quantified_comparison_lists then
      some (.post (.quantified_list op quantifier), rest)
    else none
  | none => none

/-- An infix operator of meaning `op` behind `lhs`, with its right operand. -/
def fold_infix (lhs : Written) (o : Infix) (op : BinaryOperator) (ts : List Token) :
    Option (Tail × List Token) :=
  let lambda := op == .JsonGet && features.operator_syntax.lambda_expressions &&
    lambda_params (node features lhs)
  let quantifies := !lambda && is_quantifiable_operator features op && !mode.restrict_b_expr
  match if quantifies then parse_quantifier features ts.tail else none with
  | some (quantifier, rest) => parse_quantified_operator_tail G features depth op quantifier rest
  | none => parse_binary G features climb depth mode (.known o) ts.tail

/-! ## The climb -/

/-- What a turn of the climb comes to when it does not fail. -/
inductive Turn
  | break
  | continue (lhs : Written) (rest : List Token)

/-- Fold what was read onto `lhs`, where its power allows. -/
def Turn.fold (left min_bp : Nat) (lhs : Written) (read : Option (Tail × List Token)) :
    Option Turn :=
  if left < min_bp then some .break
  else read.map fun (tail, rest) => .continue (tail.attach lhs) rest

/-- The explicit form, an operator without a meaning of its own, one of the dialect's infix
    operators, and at last one of the dialect's hook. -/
def infix_turn (min_bp : Nat) (lhs : Written) (ts : List Token) : Option Turn :=
  let powers := features.binding_powers
  if peek_operator_construct features ts then
    Turn.fold powers.string_concat.left min_bp lhs
      ((parse_operator_construct_head features ts).bind fun (o, rest) =>
        parse_binary G features climb depth mode (.known o) rest)
  else
    match peek_bare_infix_operator features ts with
    | some op =>
      Turn.fold powers.any_operator.left min_bp lhs
        (parse_binary G features climb depth mode (.known (.bare op)) ts.tail)
    | none =>
      match (peek_infix_operator features ts).bind fun o => o.means?.map (o, ·) with
      | some (o, op) =>
        let bp := features.binding_power op
        if mode.restrict_b_expr && (op == .And || op == .Or) then some .break
        else
          Turn.fold bp.left min_bp lhs
            (if reject_nonassoc_chain features lhs bp then none
              else fold_infix G features climb depth mode lhs o op ts)
      | none =>
        match ts.head?.bind fun t => G.peek_infix_operator_hook t ts.tail with
        | some bp =>
          Turn.fold bp.left min_bp lhs
            (if reject_nonassoc_chain features lhs bp then none
              else parse_binary G features climb depth mode (.custom bp) ts.tail)
        | none => some .break

/-- One turn of the climb: the operator behind `lhs` is folded onto it, or ends the climb. -/
def climb_turn (min_bp : Nat) (lhs : Written) (ts : List Token) : Option Turn :=
  if peek_unparenthesized_in_list features ts then
    if mode.restrict_b_expr then some .break
    else
      Turn.fold UNPARENTHESIZED_IN_LIST.left min_bp lhs
        (parse_unparenthesized_in_list G features climb depth mode ts)
  else if peek_starts_predicate features ts then
    if mode.restrict_b_expr && !peek_starts_is_distinct_predicate ts then some .break
    else
      let bp := predicate_binding_power features ts
      Turn.fold bp.left min_bp lhs
        (if reject_nonassoc_chain features lhs bp then none
          else parse_predicate G features climb depth mode lhs ts)
  else
    match (peek_postfix_operator features ts).filter fun op =>
        min_bp ≤ (op.binding_power features.binding_powers).left &&
          !(op == .FieldWildcard && mode.suppress_value_star) with
    | some op =>
      if mode.restrict_b_expr && op == .AtTimeZone then some .break
      else Turn.fold min_bp min_bp lhs ( parse_postfix G features climb depth mode lhs op ts)
    | none =>
      match if features.operator_syntax.postfix_operators &&
          min_bp ≤ features.binding_powers.any_operator.left then
        peek_postfix_symbolic_operator G features climb depth mode ts else none with
      | some op => some (.continue (.post lhs (.known (.symbol op))) ts.tail)
      | none => infix_turn G features climb depth mode min_bp lhs ts

/-- The turns of the climb. Each takes a token, so the tokens behind the operand bound them. -/
def climb_loop (min_bp : Nat) : Nat → Written → List Token → Option (Written × List Token)
  | 0, lhs, ts => some (lhs, ts)
  | turns + 1, lhs, ts =>
    match climb_turn G features climb depth mode min_bp lhs ts with
    | none => none
    | some .break => some (lhs, ts)
    | some (.continue lhs ts) => climb_loop min_bp turns lhs ts

end Turns

/-- Read an expression of at least the power `min_bp`, nesting at most `depth` deep. -/
def parse_expr_bp (G : Grammar) (features : FeatureSet) : Nat → Climb
  | 0, _, _, _ => none
  | depth + 1, mode, min_bp, ts =>
    match parse_prefix G features (parse_expr_bp G features depth) depth mode ts with
    | none => none
    | some (lhs, rest) =>
      climb_loop G features (parse_expr_bp G features depth) depth mode min_bp rest.length lhs rest

end squonk.parser.expr.chain
