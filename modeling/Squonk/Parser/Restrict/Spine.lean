import Mathlib
import Squonk.Parser.Restrict.Grammar

/-!
# What a restricted expression holds

The operators that may stand outside every delimiter of a restricted expression, and the
expressions between its delimiters, which are read without the restriction. Every production of
the grammar keeps to both, but for the body of a keyword lambda and for the few expressions between
delimiters that are not read by the entry of expressions, where these are entered under the flag.
-/

open squonk.ast squonk.tokenizer squonk.dialect squonk.precedence
open squonk.parser.method (Mode Method Entry)
open squonk.parser.expr (Prefix PostfixOp prefix_operator)
open squonk.parser.expr.chain (Node Binary Suffix Quantifier)

namespace squonk.parser.restrict

/-! ## The spine -/

/-- Whether `b_expr` has the operator. Either spelling of `IS [NOT] DISTINCT FROM` is one. -/
def Binary.restrained : Binary → Bool
  | .known (.symbol _ op) | .known (.word _ op) => !(op == .And || op == .Or)
  | .known (.bare _) | .known (.construct _ _) | .known (.distinct _) | .known (.equality _)
  | .custom _ => true
  | _ => false

def Suffix.restrained : Suffix → Bool
  | .known (.collate _) | .known (.symbol _) => true
  | .access op => op != .AtTimeZone
  | _ => false

/-- Whether `b_expr` has all operators that stand in no delimiter. -/
def Expr.spine : Expr → Bool
  | .UnaryOp op e => op != .unary .Not && e.spine
  | .Infix l op r => restrict.Binary.restrained op && l.spine && r.spine
  | .Mixfix _ _ _ _ | .LikeQuantified _ _ _ | .PostfixQuery _ _ _ => false
  | .Postfix e op _ => restrict.Suffix.restrained op && e.spine
  | .MethodCall receiver _ _ => receiver.spine
  | .Lambda _ (.mk _ body) => body.spine
  | _ => true

/-! ## Between delimiters -/

mutual

/-- Every expression between delimiters was read without the restriction. -/
inductive Expr.Lifted : Expr → Prop
  | Atom (e : ast.Expr) : (Expr.Atom e).Lifted
  | Group {inner : Nested} (h : inner.Lifted) : (Expr.Group inner).Lifted
  | Row {fields : List Nested} (h : ∀ n ∈ fields, n.Lifted) : (Expr.Row fields).Lifted
  | Subquery {query : Query} (h : query.Lifted) : (Expr.Subquery query).Lifted
  | Exists {query : Query} (h : query.Lifted) : (Expr.Exists query).Lifted
  | Function (name : Token) {args : List Nested} (h : ∀ n ∈ args, n.Lifted) :
      (Expr.Function name args).Lifted
  | MethodCall {receiver : Expr} (name : Token) {args : List Nested} (hr : receiver.Lifted)
      (h : ∀ n ∈ args, n.Lifted) : (Expr.MethodCall receiver name args).Lifted
  | Case {operand : Option Nested} {branches : List (Nested × Nested)} {otherwise : Option Nested}
      (ho : ∀ n ∈ operand, n.Lifted) (hw : ∀ b ∈ branches, b.1.Lifted)
      (ht : ∀ b ∈ branches, b.2.Lifted) (he : ∀ n ∈ otherwise, n.Lifted) :
      (Expr.Case operand branches otherwise).Lifted
  | Cast {operand : Nested} (h : operand.Lifted) (data_type : Ident) :
      (Expr.Cast operand data_type).Lifted
  | Array {elements : List Nested} (h : ∀ n ∈ elements, n.Lifted) : (Expr.Array elements).Lifted
  | ArraySubquery {query : Query} (h : query.Lifted) : (Expr.ArraySubquery query).Lifted
  | Lambda (params : List Token) {body : Nested} (h : body.Lifted) :
      (Expr.Lambda params body).Lifted
  | Position {substr string : Expr} (hl : substr.Lifted) (hr : string.Lifted) :
      (Expr.Position substr string).Lifted
  | PositionIn {substr : Expr} {string : Nested} (hl : substr.Lifted) (hr : string.Lifted) :
      (Expr.PositionIn substr string).Lifted
  | MatchAgainst (columns : List Ident) {against : Expr} (h : against.Lifted) :
      (Expr.MatchAgainst columns against).Lifted
  | XmlExists {path arg : Nested} (hp : path.Lifted) (ha : arg.Lifted) :
      (Expr.XmlExists path arg).Lifted
  | JsonObject {members : List (Nested × Nested)}
      (hk : ∀ b ∈ members, b.1.Lifted) (hv : ∀ b ∈ members, b.2.Lifted) :
      (Expr.JsonObject members).Lifted
  | UnaryOp (op : Prefix) {operand : Expr} (h : operand.Lifted) : (Expr.UnaryOp op operand).Lifted
  | Infix {left : Expr} (op : Binary) {right : Expr} (hl : left.Lifted) (hr : right.Lifted) :
      (Expr.Infix left op right).Lifted
  | Mixfix {left : Expr} (op : Binary) {middle right : Expr} (hl : left.Lifted)
      (hm : middle.Lifted) (hr : right.Lifted) : (Expr.Mixfix left op middle right).Lifted
  | LikeQuantified {left : Expr} (op : Binary) {pattern : Nested} (hl : left.Lifted)
      (h : pattern.Lifted) : (Expr.LikeQuantified left op pattern).Lifted
  | Postfix {operand : Expr} (op : Suffix) {inside : List Nested} (hl : operand.Lifted)
      (h : ∀ n ∈ inside, n.Lifted) : (Expr.Postfix operand op inside).Lifted
  | PostfixQuery {operand : Expr} (op : Suffix) {query : Query} (hl : operand.Lifted)
      (h : query.Lifted) : (Expr.PostfixQuery operand op query).Lifted

inductive Nested.Lifted : Nested → Prop
  | mk {e : Expr} (h : e.Lifted) : (Nested.mk false e).Lifted

inductive Query.Lifted : Query → Prop
  | mk {projection : List Nested} {tables : List TableFactor} {selection limit : Option Nested}
      (hp : ∀ n ∈ projection, n.Lifted) (ht : ∀ t ∈ tables, t.Lifted)
      (hs : ∀ n ∈ selection, n.Lifted) (hl : ∀ n ∈ limit, n.Lifted) :
      (Query.mk projection tables selection limit).Lifted

inductive TableFactor.Lifted : TableFactor → Prop
  | Table (name : Token) {version : List Nested} (h : ∀ n ∈ version, n.Lifted) :
      (TableFactor.Table name version).Lifted
  | Derived {subquery : Query} (h : subquery.Lifted) : (TableFactor.Derived subquery).Lifted

end

/-! ## What the productions return -/

/-- What is promised of an expression that was read under the flag. -/
def Kept (restricted : Bool) (e : Expr) : Prop :=
  e.Lifted ∧ (restricted = true → e.spine = true)

/-- What is promised of the answer of a production that runs under the flag. -/
def Promised (restricted : Bool) : (p : Proc) → p.Ret → Prop
  | .parse_expr, n => ∃ e, n = .mk restricted e ∧ Kept restricted e
  | .parse_restricted _, e | .parse_expr_bp_inner _, e => Kept restricted e
  | .parse_keyword_lambda, e => Kept restricted e
  | Proc.parse_prefix, parsed => Kept restricted parsed.expr
  | .parse_array_row, e => e.Lifted
  | .nested_bp _, n | Proc.nested_prefix, n => n.Lifted
  | .parse_limit_operand, n | .parse_percent_symbol_count, n => n.Lifted
  | .parse_query_inner _, query | .try_parenthesized_query, query => query.Lifted
  | .operand_ahead, _ | .json_key_ahead, _ | .no_json_member_ahead, _ => True

/-- A program returns what `P` says, where the productions keep their promises. -/
abbrev Gives {α : Type} (source : List Token) (restricted : Bool) (program : ParseResult α)
    (P : α → Prop) : Prop :=
  program.Returns source .RestrictBExpr Promised restricted P

/-- Whether a production that reads an expression under the flag as it stands, where the full
grammar is due or is read, may be entered. -/
def Proc.admits (restricted : Bool) : Proc → Bool
  | .parse_keyword_lambda | .nested_bp _ | Proc.nested_prefix => !restricted
  | _ => true

section Gives

variable {features : FeatureSet} {source : List Token} {restricted : Bool} {α : Type}
variable {P : α → Prop}

theorem gives_look (test : List Token → α) :
    Gives source restricted (look test) fun reply => ∃ ts, ts <:+: source ∧ reply = test ts :=
  Method.Returns.step (.look test)

theorem gives_restrict_b_expr :
    Gives source restricted restrict_b_expr fun reply => reply = restricted := by
  intro reply hreply
  exact hreply rfl

theorem gives_unexpected (expected : String) :
    Gives source restricted (unexpected expected) P :=
  fun reply => reply.elim

theorem gives_many_tail (more : ParseResult Bool) {item : ParseResult α}
    (hitem : Gives source restricted item P) (turns : Nat) :
    Gives source restricted (many_tail more item turns) fun items => ∀ a ∈ items, P a := by
  induction turns with
  | zero => exact fun a ha => absurd ha List.not_mem_nil
  | succ turns ih =>
    rw [many_tail]
    apply Method.Returns.bind_any
    intro more
    split
    · apply hitem.bind
      intro head hhead
      apply ih.bind
      intro tail htail a ha
      obtain rfl | ha := List.mem_cons.mp ha
      · exact hhead
      · exact htail a ha
    · exact fun a ha => absurd ha List.not_mem_nil

theorem gives_comma_separated {item : ParseResult α} (hitem : Gives source restricted item P) :
    Gives source restricted (parse_comma_separated item) fun items => ∀ a ∈ items, P a := by
  rw [parse_comma_separated]
  apply hitem.bind
  intro head hhead
  apply Method.Returns.bind_any
  intro turns
  apply (gives_many_tail _ hitem turns).bind
  intro tail htail a ha
  obtain rfl | ha := List.mem_cons.mp ha
  · exact hhead
  · exact htail a ha

theorem gives_some {program : ParseResult α} (h : Gives source restricted program P) :
    Gives source restricted (do return some (← program)) fun found => ∀ a ∈ found, P a := by
  apply h.bind
  intro a ha b hb
  rw [← Option.some.inj hb]
  exact ha

theorem gives_optional (present : ParseResult Bool) {item : ParseResult α}
    (hitem : Gives source restricted item P) :
    Gives source restricted (parse_optional present item) fun found => ∀ a ∈ found, P a := by
  rw [parse_optional]
  apply Method.Returns.bind_any
  intro present
  split
  · exact gives_some hitem
  · exact fun a ha => by cases ha

theorem gives_until (closing : Token) {item : ParseResult α}
    (hitem : Gives source restricted item P) :
    Gives source restricted (parse_until closing item) fun items => ∀ a ∈ items, P a := by
  rw [parse_until]
  apply Method.Returns.bind_any
  intro closes
  split
  · exact fun a ha => absurd ha List.not_mem_nil
  · exact gives_comma_separated hitem

theorem gives_parse_expr : Gives source restricted parse_expr Nested.Lifted := by
  rintro n ⟨e, rfl, hlifted, -⟩
  exact .mk hlifted

theorem gives_parse_projection_target_expr :
    Gives source restricted parse_projection_target_expr Nested.Lifted := by
  rintro n ⟨e, rfl, hlifted, -⟩
  exact .mk hlifted

theorem gives_parse_b_expr : Gives source restricted parse_b_expr (Kept true) :=
  fun _ he => he

theorem gives_parse_bit_expr :
    Gives source restricted (parse_bit_expr features) (Kept true) :=
  fun _ he => he

theorem gives_parse_expr_bp (min_bp : Nat) :
    Gives source restricted (parse_expr_bp min_bp) (Kept restricted) :=
  fun _ he => he

theorem gives_parse_prefix :
    Gives source restricted parse_prefix fun parsed => Kept restricted parsed.expr :=
  fun _ he => he

theorem gives_nested_prefix : Gives source restricted nested_prefix Nested.Lifted :=
  fun _ hn => hn

theorem gives_parse_query (grouping : Bool) :
    Gives source restricted (parse_query grouping) Query.Lifted :=
  fun _ _ hquery => hquery

theorem gives_query_in_parens (expected closing : String) :
    Gives source restricted (parse_query_in_parens expected closing) Query.Lifted := by
  rw [parse_query_in_parens]
  apply Method.Returns.bind_any
  intro _
  apply (gives_parse_query false).bind
  intro query hquery
  apply Method.Returns.bind_any
  intro _
  exact hquery

theorem gives_query_behind_paren (nested : Bool) (closing : String) :
    Gives source restricted (parse_query_behind_paren nested closing) fun query =>
      ∀ q ∈ query, q.Lifted := by
  rw [parse_query_behind_paren]
  apply Method.Returns.bind_any
  intro starts
  split
  · apply (gives_parse_query false).bind
    intro query hquery
    apply Method.Returns.bind_any
    intro _ q hq
    rw [← Option.some.inj hq]
    exact hquery
  · apply Method.Returns.bind_any
    intro opens
    split
    · exact fun reply hreply q hq => hreply q hq
    · exact fun q hq => by cases hq

end Gives

/-! ## Operands -/

section Operands

variable {features : FeatureSet} {forms : FormSyntax} {source : List Token} {restricted : Bool}

theorem Kept.of_lifted {e : Expr} (h : e.Lifted) (hspine : e.spine = true) : Kept restricted e :=
  ⟨h, fun _ => hspine⟩

theorem gives_function_args :
    Gives source restricted parse_function_args fun args => ∀ n ∈ args, n.Lifted := by
  rw [parse_function_args]
  apply Method.Returns.bind_any
  intro _
  apply (gives_until _ gives_parse_expr).bind
  intro args hargs
  apply Method.Returns.bind_any
  intro _
  exact hargs

theorem gives_grouped :
    Gives source restricted (parse_grouped forms) fun parsed => Kept restricted parsed.expr := by
  rw [parse_grouped]
  apply Method.Returns.bind_any
  intro _
  apply (gives_query_behind_paren _ _).bind
  intro query hquery
  split
  · exact Kept.of_lifted (.Subquery (hquery _ rfl)) rfl
  · apply gives_parse_expr.bind
    intro inner hinner
    apply Method.Returns.bind_any
    intro comma
    split
    · apply Method.Returns.bind_any
      intro turns
      apply (gives_many_tail _ gives_parse_expr turns).bind
      intro fields hfields
      apply Method.Returns.bind_any
      intro _
      apply Kept.of_lifted (.Row ?_) rfl
      intro n hn
      obtain rfl | hn := List.mem_cons.mp hn
      · exact hinner
      · exact hfields n hn
    · apply Method.Returns.bind_any
      intro _
      exact Kept.of_lifted (.Group hinner) rfl

theorem gives_when_clause :
    Gives source restricted parse_when_clause fun branch =>
      branch.1.Lifted ∧ branch.2.Lifted := by
  rw [parse_when_clause]
  apply Method.Returns.bind_any
  intro _
  apply gives_parse_expr.bind
  intro condition hcondition
  apply Method.Returns.bind_any
  intro _
  apply gives_parse_expr.bind
  intro result hresult
  exact ⟨hcondition, hresult⟩

theorem gives_case : Gives source restricted parse_case (Kept restricted) := by
  rw [parse_case]
  apply Method.Returns.bind_any
  intro _
  apply (gives_optional _ gives_parse_expr).bind
  intro operand hoperand
  apply Method.Returns.bind_any
  intro turns
  apply (gives_many_tail _ gives_when_clause turns).bind
  intro branches hbranches
  apply Method.Returns.bind_any
  intro _
  apply (gives_optional _ gives_parse_expr).bind
  intro otherwise hotherwise
  apply Method.Returns.bind_any
  intro _
  exact Kept.of_lifted (.Case hoperand (fun b hb => (hbranches b hb).1)
    (fun b hb => (hbranches b hb).2) hotherwise) rfl

theorem gives_cast : Gives source restricted (parse_cast features) (Kept restricted) := by
  rw [parse_cast]
  apply Method.Returns.bind_any
  intro _
  apply Method.Returns.bind_any
  intro _
  apply gives_parse_expr.bind
  intro operand hoperand
  apply Method.Returns.bind_any
  intro _
  apply Method.Returns.bind_any
  intro data_type
  split
  · exact gives_unexpected _
  · apply Method.Returns.bind_any
    intro _
    apply Method.Returns.bind_any
    intro _
    exact Kept.of_lifted (.Cast hoperand _) rfl

theorem gives_exists : Gives source restricted parse_exists (Kept restricted) := by
  rw [parse_exists]
  apply Method.Returns.bind_any
  intro _
  apply (gives_query_in_parens _ _).bind
  intro query hquery
  exact Kept.of_lifted (.Exists hquery) rfl

theorem gives_array_row : Gives source restricted parse_array_row_body
    fun e => e.Lifted ∧ e.spine = true := by
  have helements : Gives source restricted parse_array_multidim_elements
      fun elements => ∀ n ∈ elements, n.Lifted := by
    rw [parse_array_multidim_elements]
    apply Method.Returns.bind_any
    intro rows
    split
    · apply gives_comma_separated
      intro row hrow
      exact .mk hrow
    · exact gives_until _ gives_parse_expr
  rw [parse_array_row_body]
  apply Method.Returns.bind_any
  intro _
  apply helements.bind
  intro elements helements
  apply Method.Returns.bind_any
  intro _
  exact ⟨Expr.Lifted.Array helements, rfl⟩

theorem gives_list (closing : String) :
    Gives source restricted (parse_list closing) (Kept restricted) := by
  rw [parse_list]
  apply (gives_until _ gives_parse_expr).bind
  intro elements helements
  apply Method.Returns.bind_any
  intro _
  exact Kept.of_lifted (.Array helements) rfl

theorem gives_array : Gives source restricted (parse_array features) (Kept restricted) := by
  rw [parse_array]
  apply Method.Returns.bind_any
  intro _
  apply Method.Returns.bind_any
  intro elements
  split
  · split
    · apply gives_array_row.imp
      intro e he
      exact Kept.of_lifted he.1 he.2
    · apply Method.Returns.bind_any
      intro _
      exact gives_list _
  · apply (gives_query_in_parens _ _).bind
    intro query hquery
    exact Kept.of_lifted (.ArraySubquery hquery) rfl

theorem gives_keyword_lambda_body (hlifted : restricted = false) :
    Gives source restricted parse_keyword_lambda_body (Kept restricted) := by
  rw [parse_keyword_lambda_body]
  apply Method.Returns.bind_any
  intro _
  apply Method.Returns.bind_any
  intro params
  apply Method.Returns.bind_any
  intro _
  apply gives_parse_expr.bind
  intro body hbody
  exact ⟨.Lambda params hbody, fun h => absurd (hlifted.symm.trans h) Bool.false_ne_true⟩

theorem gives_position : Gives source restricted (parse_position_expr features forms)
    (Kept restricted) := by
  rw [parse_position_expr]
  apply Method.Returns.bind_any
  intro _
  apply Method.Returns.bind_any
  intro _
  split
  · apply gives_parse_bit_expr.bind
    intro substr hsubstr
    apply Method.Returns.bind_any
    intro _
    apply gives_parse_expr.bind
    intro string hstring
    apply Method.Returns.bind_any
    intro _
    exact Kept.of_lifted (.PositionIn hsubstr.1 hstring) rfl
  · apply gives_parse_b_expr.bind
    intro substr hsubstr
    apply Method.Returns.bind_any
    intro _
    apply gives_parse_b_expr.bind
    intro string hstring
    apply Method.Returns.bind_any
    intro _
    exact Kept.of_lifted (.Position hsubstr.1 hstring.1) rfl

theorem gives_match_against : Gives source restricted (parse_match_against features)
    (Kept restricted) := by
  rw [parse_match_against]
  apply Method.Returns.bind_any
  intro _
  apply Method.Returns.bind_any
  intro _
  apply Method.Returns.bind_any
  intro columns
  apply Method.Returns.bind_any
  intro _
  apply Method.Returns.bind_any
  intro _
  apply Method.Returns.bind_any
  intro _
  apply gives_parse_bit_expr.bind
  intro against hagainst
  apply Method.Returns.bind_any
  intro _
  exact Kept.of_lifted (.MatchAgainst columns hagainst.1) rfl

/-- Where nothing is restricted, an expression that is read under the flag as it stands is read
as by the entry. -/
theorem gives_nested_bp_body (hlifted : restricted = false) (min_bp : Nat) :
    Gives source restricted (nested_bp_body min_bp) Nested.Lifted := by
  rw [nested_bp_body]
  apply gives_restrict_b_expr.bind
  intro reply hreply
  apply (gives_parse_expr_bp min_bp).bind
  intro e he
  rw [hreply, hlifted]
  exact Nested.Lifted.mk he.1

theorem gives_nested_prefix_body (hlifted : restricted = false) :
    Gives source restricted nested_prefix_body Nested.Lifted := by
  rw [nested_prefix_body]
  apply gives_restrict_b_expr.bind
  intro reply hreply
  apply gives_parse_prefix.bind
  intro parsed hparsed
  rw [hreply, hlifted]
  exact Nested.Lifted.mk hparsed.1

theorem gives_xml_exists :
    Gives source restricted parse_xml_exists (Kept restricted) := by
  rw [parse_xml_exists]
  apply Method.Returns.bind_any
  intro _
  apply Method.Returns.bind_any
  intro _
  apply gives_nested_prefix.bind
  intro path hpath
  apply Method.Returns.bind_any
  intro _
  apply Method.Returns.bind_any
  intro _
  apply gives_nested_prefix.bind
  intro arg harg
  apply Method.Returns.bind_any
  intro _
  apply Method.Returns.bind_any
  intro _
  exact Kept.of_lifted (.XmlExists hpath harg) rfl

theorem gives_json_member :
    Gives source restricted try_parse_json_member fun member =>
      ∀ m ∈ member, m.1.Lifted ∧ m.2.Lifted := by
  have hvalue (key : Nested) (hkey : key.Lifted) :
      Gives source restricted (do
        let value ← parse_expr
        return some (key, value)) fun member => ∀ m ∈ member, m.1.Lifted ∧ m.2.Lifted := by
    apply gives_parse_expr.bind
    intro value hvalue m hm
    rw [← Option.some.inj hm]
    exact ⟨hkey, hvalue⟩
  rw [try_parse_json_member]
  apply Method.Returns.bind_any
  intro _
  apply Method.Returns.bind_any
  intro ahead
  split
  · apply gives_nested_prefix.bind
    intro key hkey
    apply Method.Returns.bind_any
    intro _
    exact hvalue key hkey
  · apply Method.Returns.bind_any
    intro ahead
    split
    · apply gives_parse_expr.bind
      intro key hkey
      apply Method.Returns.bind_any
      intro colon
      split
      · exact hvalue key hkey
      · exact fun m hm => by cases hm
    · apply Method.Returns.bind_any
      intro _
      exact gives_unexpected _

theorem gives_json_object (name : Token) :
    Gives source restricted (parse_json_object name) (Kept restricted) := by
  have hmember : Gives source restricted parse_json_member_required
      fun m => m.1.Lifted ∧ m.2.Lifted := by
    rw [parse_json_member_required]
    apply gives_json_member.bind
    intro member hmember
    split
    · exact hmember _ rfl
    · exact gives_unexpected _
  rw [parse_json_object]
  apply Method.Returns.bind_any
  intro _
  apply Method.Returns.bind_any
  intro empty
  split
  · apply Method.Returns.bind_any
    intro _
    exact Kept.of_lifted (.JsonObject (fun b hb => absurd hb List.not_mem_nil)
      fun b hb => absurd hb List.not_mem_nil) rfl
  · apply Method.Returns.bind_any
    intro call
    split
    · apply gives_function_args.bind
      intro args hargs
      exact Kept.of_lifted (.Function name hargs) rfl
    · apply Method.Returns.bind_any
      intro _
      apply (gives_comma_separated hmember).bind
      intro members hmembers
      apply Method.Returns.bind_any
      intro _
      exact Kept.of_lifted (.JsonObject (fun b hb => (hmembers b hb).1)
        fun b hb => (hmembers b hb).2) rfl

theorem gives_word_form (name : Token) :
    Gives source restricted (parse_word_form features forms name) fun found =>
      ∀ e ∈ found, Kept restricted e := by
  rw [parse_word_form]
  apply Method.Returns.bind_any
  intro is_case
  split
  · exact gives_some gives_case
  apply Method.Returns.bind_any
  intro is_cast
  split
  · exact gives_some gives_cast
  apply Method.Returns.bind_any
  intro is_exists
  split
  · exact gives_some gives_exists
  apply Method.Returns.bind_any
  intro is_position
  split
  · exact gives_some gives_position
  apply Method.Returns.bind_any
  intro is_xml
  split
  · exact gives_some gives_xml_exists
  apply Method.Returns.bind_any
  intro is_json
  split
  · exact gives_some (gives_json_object name)
  apply Method.Returns.bind_any
  intro is_call
  split
  · apply Method.Returns.bind_any
    intro _
    apply gives_function_args.bind
    intro args hargs e he
    rw [← Option.some.inj he]
    exact Kept.of_lifted (.Function name hargs) rfl
  · exact fun e he => by cases he

theorem gives_keyword_form :
    Gives source restricted (parse_keyword_form features forms) fun found =>
      ∀ e ∈ found, Kept restricted e := by
  rw [parse_keyword_form]
  apply Method.Returns.bind_any
  intro is_lambda
  split
  · exact gives_some fun _ he => he
  apply Method.Returns.bind_any
  intro is_match
  apply Method.Returns.bind_any
  intro opens
  split
  · exact gives_some gives_match_against
  apply Method.Returns.bind_any
  intro is_array
  apply Method.Returns.bind_any
  intro is_bracket
  apply Method.Returns.bind_any
  intro is_paren
  split
  · exact gives_some gives_array
  apply Method.Returns.bind_any
  intro is_row
  apply Method.Returns.bind_any
  intro opens
  split
  · apply Method.Returns.bind_any
    intro _
    apply gives_function_args.bind
    intro fields hfields e he
    rw [← Option.some.inj he]
    exact Kept.of_lifted (.Row hfields) rfl
  apply Method.Returns.bind_any
  intro is_list
  split
  · apply Method.Returns.bind_any
    intro _
    exact gives_some (gives_list _)
  · exact fun e he => by cases he

theorem gives_atom : Gives source restricted (parse_atom features) (Kept restricted) := by
  rw [parse_atom]
  apply Method.Returns.bind_any
  intro found
  split
  · apply Method.Returns.bind_any
    intro _
    exact Kept.of_lifted (.Atom _) rfl
  · exact gives_unexpected _

theorem gives_primary :
    Gives source restricted (parse_primary features forms) (Kept restricted) := by
  rw [parse_primary]
  apply gives_keyword_form.bind
  intro found hfound
  split
  · exact hfound _ rfl
  · apply Method.Returns.bind_any
    intro name
    split
    · exact gives_atom
    · apply (gives_word_form _).bind
      intro found hfound
      split
      · exact hfound _ rfl
      · exact gives_atom

theorem gives_ensure (holds : Bool) (expected : String) :
    Gives source restricted (ensure holds expected) fun _ => holds = true := by
  rw [ensure]
  split
  · next h => exact h
  · exact gives_unexpected _

theorem gives_prefix_body :
    Gives source restricted (parse_prefix_body features forms) fun parsed =>
      Kept restricted parsed.expr := by
  rw [parse_prefix_body]
  apply Method.Returns.bind_any
  intro opens
  split
  · exact gives_grouped
  apply Method.Returns.bind_any
  intro op
  split
  · apply gives_primary.bind
    intro e he
    exact he
  · rename_i op
    apply gives_restrict_b_expr.bind
    rintro _ rfl
    apply (gives_ensure _ _).bind
    intro _ hop
    apply Method.Returns.bind_any
    intro _
    apply (gives_parse_expr_bp _).bind
    intro operand hoperand
    refine ⟨.UnaryOp op hoperand.1, fun hr => ?_⟩
    have hnot : (op != .unary .Not) = true := by
      rw [hr, Bool.true_and] at hop
      exact hop
    show (op != .unary .Not && operand.spine) = true
    rw [hnot, hoperand.2 hr]
    rfl

end Operands

end squonk.parser.restrict
