import Squonk.Climbing.Turns
import Squonk.Parser.Expr.Refines

/-!
# Depth of expressions

The recursion limit bounds the reads inside each other. The turns of a climb, each of which wraps
the expression read so far, are bounded by the length of the source alone.
-/

open squonk.ast squonk.tokenizer squonk.dialect squonk.precedence climbing

namespace squonk.ast

/-- How many nodes are inside each other. -/
@[simp]
def Expr.depth : Expr → Nat
  | Column _ | Literal _ => 1
  | BinaryOp left _ right => max left.depth right.depth + 1
  | UnaryOp _ expr => expr.depth + 1
  | IsNull expr _ _ => expr.depth + 1
  | IsTruth expr _ _ => expr.depth + 1
  | Between expr low high _ _ => max expr.depth (max low.depth high.depth) + 1
  | Like expr pattern _ _ => max expr.depth pattern.depth + 1
  | LikeEscape expr pattern escape _ _ => max expr.depth (max pattern.depth escape.depth) + 1
  | Collate expr _ => expr.depth + 1
  | AtTimeZone expr zone => max expr.depth zone.depth + 1
  | NamedOperator left _ _ right _ => max left.depth right.depth + 1
  | PrefixOperator _ operand => operand.depth + 1
  | PostfixOperator operand _ => operand.depth + 1
  | Lambda _ _ body => body.depth + 1

theorem Expr.depth_pos (e : Expr) : 0 < e.depth := by
  cases e <;> exact Nat.succ_pos _

end squonk.ast

namespace squonk.parser.expr

variable {features : FeatureSet}

/-! ## One turn -/

theorem depth_infix_expr {lhs right : Expr} {grouped : Bool} {op : BinaryOperator} :
    (infix_expr features lhs grouped op right).depth ≤ max lhs.depth right.depth + 1 ∧
      max lhs.depth right.depth < (infix_expr features lhs grouped op right).depth := by
  have hpos := right.depth_pos
  unfold infix_expr
  split
  · cases hparam : lambda_param lhs grouped with
    | none => simp [Expr.depth]
    | some read =>
      have hcolumn : ∃ name, lhs = .Column name := by
        cases lhs <;> simp_all [lambda_param]
      obtain ⟨name, rfl⟩ := hcolumn
      simp only [Expr.depth]
      omega
  · simp [Expr.depth]

/-- Folding an infix operator adds one node or two. -/
theorem depth_build (lhs right : Expr) (grouped : Bool) (o : Infix) :
    (o.build features lhs grouped right).depth ≤ max lhs.depth right.depth + 2 ∧
      max lhs.depth right.depth < (o.build features lhs grouped right).depth := by
  cases o with
  | symbol _ means =>
    have hinfix := @depth_infix_expr features lhs right grouped means
    exact ⟨by simp only [Infix.build]; omega, hinfix.2⟩
  | word _ means =>
    have hinfix := @depth_infix_expr features lhs right grouped means
    exact ⟨by simp only [Infix.build]; omega, hinfix.2⟩
  | bare op => simp only [Infix.build, Expr.depth]; omega
  | construct schema op => simp only [Infix.build, Expr.depth]; omega
  | distinct negated => simp only [Infix.build, Expr.depth]; omega
  | equality negated => simp only [Infix.build, Expr.depth]; omega
  | negated_word _ means => simp only [Infix.build, Expr.depth]; omega
  | between negated modifier => simp only [Infix.build, Expr.depth]; omega
  | like negated spelling => simp only [Infix.build, Expr.depth]; omega
  | at_time_zone => simp only [Infix.build, Expr.depth]; omega

/-- Folding an operator with two right operands adds one node, if it has a separator. -/
theorem depth_build_mixfix (lhs first second : Expr) {o : Infix} (hsep : o.separator ≠ []) :
    (o.build_mixfix lhs first second).depth = max lhs.depth (max first.depth second.depth) + 1 := by
  cases o with
  | between negated modifier => rfl
  | like negated spelling => rfl
  | symbol _ _ | word _ _ | bare _ | construct _ _ | distinct _ | equality _ | negated_word _ _
  | at_time_zone => exact absurd rfl hsep

theorem depth_post (lhs : Expr) (q : Postfix) : (q.build lhs).depth = lhs.depth + 1 := by
  cases q <;> rfl

theorem depth_pre (p : Prefix) (operand : Expr) : (p.build operand).depth = operand.depth + 1 := by
  cases p <;> rfl

/-! ## Written expressions -/

/-- Only operators with a separator have two right operands. -/
def Formed : Written → Prop
  | .atom _ => True
  | .group c => Formed c
  | .pre _ c => Formed c
  | .inf l _ r => Formed l ∧ Formed r
  | .mix l o m r => o.separator ≠ [] ∧ Formed l ∧ Formed m ∧ Formed r
  | .post l _ => Formed l

theorem formed_of_climb {depth min : Nat} {ts rest : List Token} {c : Written}
    (h : (reader features).climb depth min ts = some (c, rest)) : Formed c := by
  refine Reader.climb_induct (reader_faithful features) (P := fun _ c => Formed c)
    (fun _ _ => trivial) (fun _ _ hc => hc) (fun _ _ _ hc => hc) (fun _ _ _ _ hl hr => ⟨hl, hr⟩)
    ?_ (fun _ _ _ hl => hl) h
  intro n l o m r ts ts' hcont hl hm hr
  refine ⟨fun hnil => ?_, hl, hm, hr⟩
  cases o with
  | between negated modifier => cases hnil
  | like negated spelling => cases hnil
  | symbol _ _ | word _ _ | bare _ | construct _ _ | distinct _ | equality _ | negated_word _ _
  | at_time_zone => cases hcont

/-- A tree is at most twice as deep as the reads and the turns around its deepest leaf. -/
theorem depth_erase_le {c : Written} (hformed : Formed c) :
    (erase features c).depth ≤ 2 * (c.turns + c.height) := by
  induction c with
  | atom a => cases a <;> simp [erase, Atom.build, Expr.depth, Cst.height, Cst.turns]
  | group c ih =>
    have hle := ih hformed
    rw [erase, Cst.turns, Cst.height]
    omega
  | pre p c ih =>
    have hle := ih hformed
    rw [erase, depth_pre, Cst.turns, Cst.height]
    omega
  | inf l o r ihl ihr =>
    have hl := ihl hformed.1
    have hr := ihr hformed.2
    have hbuild := (@depth_build features (erase features l) (erase features r) l.isGroup o).1
    rw [erase, Cst.turns, Cst.height]
    omega
  | mix l o m r ihl ihm ihr =>
    have hl := ihl hformed.2.1
    have hm := ihm hformed.2.2.1
    have hr := ihr hformed.2.2.2
    rw [erase, depth_build_mixfix _ _ _ hformed.1, Cst.turns, Cst.height]
    omega
  | post l q ih =>
    have hl := ih hformed
    rw [erase, depth_post, Cst.turns, Cst.height]
    omega

/-- Every turn adds a node. -/
theorem turns_lt_depth {c : Written} (hformed : Formed c) :
    c.turns < (erase features c).depth := by
  induction c with
  | atom a => exact Expr.depth_pos _
  | group c ih => exact ih hformed
  | pre p c ih =>
    have hlt := ih hformed
    rw [erase, depth_pre, Cst.turns]
    omega
  | inf l o r ihl ihr =>
    have hl := ihl hformed.1
    have hr := ihr hformed.2
    have hbuild := (@depth_build features (erase features l) (erase features r) l.isGroup o).2
    rw [erase, Cst.turns]
    omega
  | mix l o m r ihl ihm ihr =>
    have hl := ihl hformed.2.1
    have hm := ihm hformed.2.2.1
    have hr := ihr hformed.2.2.2
    rw [erase, depth_build_mixfix _ _ _ hformed.1, Cst.turns]
    omega
  | post l q ih =>
    have hl := ih hformed
    rw [erase, depth_post, Cst.turns]
    omega

/-! ## Accepted sources -/

/-- What is read under a limit is deeper than its turns, and at most twice as deep as its turns
and the limit together. -/
theorem parse_expr_depth (hregular : Regular features) {limit : Nat} {ts rest : List Token}
    {e : Expr} (h : parse_expr features limit ts = some (e, rest)) :
    ∃ c, (reader features).climb limit 0 ts = some (c, rest) ∧ c.turns < e.depth ∧
      e.depth ≤ 2 * (c.turns + limit) := by
  rw [parse_expr, parse_expr_bp_eq hregular] at h
  obtain ⟨⟨c, rest'⟩, hread, heq⟩ := Option.map_eq_some_iff.mp h
  obtain ⟨rfl, rfl⟩ := Prod.mk.inj heq
  have hformed := formed_of_climb hread
  have hheight := Reader.climb_height (reader_faithful features) hread
  have hle := @depth_erase_le features c hformed
  exact ⟨c, hread, turns_lt_depth hformed, by omega⟩

def one : Token := .number ['1']

/-- Some additions of one. -/
def additions : Nat → List Token
  | 0 => []
  | n + 1 => .operator .Plus :: one :: additions n

def sum : Nat → Expr → Expr
  | 0, lhs => lhs
  | n + 1, lhs => sum n (.BinaryOp lhs .Plus (.Literal (.Number ['1'])))

theorem depth_sum (n : Nat) (lhs : Expr) : n < (sum n lhs).depth := by
  have hgrows : n + lhs.depth ≤ (sum n lhs).depth := by
    induction n generalizing lhs with
    | zero => exact Nat.le_of_eq (Nat.zero_add _)
    | succ n ih =>
      have hle := ih (.BinaryOp lhs .Plus (.Literal (.Number ['1'])))
      simp only [Expr.depth] at hle
      rw [sum]
      omega
  have hpos := lhs.depth_pos
  omega

theorem le_length_additions (n : Nat) : n ≤ (additions n).length := by
  induction n with
  | zero => exact Nat.le_refl 0
  | succ n ih =>
    rw [additions, List.length_cons, List.length_cons]
    omega

theorem parse_one (n : Nat) : parse_expr_bp BuiltinDialect.Ansi.features 1
    (BuiltinDialect.Ansi.features.binding_power .Plus).right (one :: additions n) =
      some (.Literal (.Number ['1']), additions n) := by
  cases n with
  | zero => rfl
  | succ n => rfl

theorem addition_turn (climb : Climb) (lhs : Expr) (grouped : Bool) (ts : List Token) :
    climb_turn BuiltinDialect.Ansi.features climb 0 lhs grouped (.operator .Plus :: ts) =
      Turn.fold (BuiltinDialect.Ansi.features.binding_power .Plus).left 0
        ((climb (BuiltinDialect.Ansi.features.binding_power .Plus).right ts).map
          fun (right, ts) => (.BinaryOp lhs .Plus right, ts)) := rfl

theorem parse_additions (n turns : Nat) (lhs : Expr) (grouped : Bool) (hturns : n ≤ turns) :
    climb_loop BuiltinDialect.Ansi.features (parse_expr_bp BuiltinDialect.Ansi.features 1) 0 turns
      lhs grouped (additions n) = some (sum n lhs, []) := by
  induction n generalizing turns lhs grouped with
  | zero => cases turns <;> rfl
  | succ n ih =>
    obtain ⟨turns, rfl⟩ : ∃ t, turns = t + 1 := ⟨turns - 1, by omega⟩
    have hturn : climb_turn BuiltinDialect.Ansi.features
        (parse_expr_bp BuiltinDialect.Ansi.features 1) 0 lhs grouped (additions (n + 1)) =
          some (.continue (.BinaryOp lhs .Plus (.Literal (.Number ['1']))) (additions n)) := by
      rw [additions, addition_turn, parse_one]
      rfl
    rw [climb_loop, hturn]
    exact ih turns _ false (by omega)

end squonk.parser.expr
