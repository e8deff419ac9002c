import Squonk.Ast.Walk

/-!
# The gate of `CHECK` expressions

Where a dialect has no subqueries in `CHECK`, the expression of a column or table constraint is
walked for the nodes that a subquery makes. The walk names them one by one, and goes through the
queries of the nodes it does not name.
-/

open squonk.ast.walk

namespace squonk.parser.check_gate

variable {Q : Type}

structure ConstraintSyntax where
  check_constraint_subqueries : Bool
  deriving DecidableEq

namespace ConstraintSyntax

def DUCKDB : ConstraintSyntax := ⟨false⟩

end ConstraintSyntax

/-! ## The walk -/

/-- The nodes that the walk stops at. -/
@[simp]
def subquery_shaped : Expr Q → Bool
  | .Subquery _ | .Exists _ | .InSubquery _ _ | .Array (.Subquery _) => true
  | _ => false

/-- Whether the walk of an expression comes to a node it stops at. `visit_query` says so of the walk
of a query. -/
def expr_contains_subquery (visit_query : Q → Bool) (e : Expr Q) : Bool :=
  if subquery_shaped e then true
  else
    e.parts.attach.any fun ⟨part, hpart⟩ =>
      match part, hpart with
      | .expr d, hpart =>
        have : sizeOf d < sizeOf e := Expr.sizeOf_part hpart
        expr_contains_subquery visit_query d
      | .query q, _ => visit_query q
termination_by sizeOf e

/-- The `CHECK` of a column or table constraint behind its expression. -/
def reject_check_subquery_if_gated ( constraint_syntax : ConstraintSyntax) (visit_query : Q → Bool)
    (e : Expr Q) : Except String Unit :=
  if constraint_syntax.check_constraint_subqueries then .ok ()
  else if expr_contains_subquery visit_query e then
    .error ("a CHECK expression without a subquery (subqueries are not admitted in CHECK " ++
      "under this dialect)")
  else .ok ()

/-! ## What stands in an expression -/

/-- `d` stands in `e`, at any depth and outside of every query. -/
inductive Within (e : Expr Q) : Expr Q → Prop
  | self : Within e e
  | part {d d' : Expr Q} (h : Within e d) (hpart : .expr d' ∈ d.parts) : Within e d'

theorem Within.of_part {e d d' : Expr Q} (hpart : .expr d ∈ e.parts) (h : Within d d') :
    Within e d' := by
  induction h with
  | self => exact .part .self hpart
  | part _ hpart' ih => exact .part ih hpart'

/-- What stands in an expression is the expression, or stands in a part of it. -/
theorem Within.cases_part {e d' : Expr Q} (h : Within e d') :
    d' = e ∨ ∃ d, .expr d ∈ e.parts ∧ Within d d' := by
  induction h with
  | self => exact .inl rfl
  | part _ hpart ih =>
    obtain rfl | ⟨d, hd, hwithin⟩ := ih
    · exact .inr ⟨_, hpart, .self⟩
    · exact .inr ⟨d, hd, .part hwithin hpart⟩

/-- A query stands in `e`, so that none does in any depth where there is none. -/
def HasQuery (e : Expr Q) : Prop := ∃ d q, Within e d ∧ .query q ∈ d.parts

/-- The nodes with a query that the walk does not stop at. -/
@[simp]
def unnamed : Expr Q → Option Q
  | .QuantifiedComparison _ subquery => some subquery
  | .JsonArray (.Query query) => some query
  | _ => none

/-- A query belongs to a node the walk stops at, or to one of the two others. -/
theorem query_part_iff {e : Expr Q} :
    (∃ q, .query q ∈ e.parts) ↔ subquery_shaped e = true ∨ (unnamed e).isSome = true := by
  cases e with
  | Array array => cases array <;> simp [Expr.parts, subquery_shaped, unnamed]
  | JsonArray body => cases body <;> simp [Expr.parts, subquery_shaped, unnamed]
  | _ => simp [Expr.parts, subquery_shaped, unnamed]

theorem query_part_unnamed {e : Expr Q} (he : subquery_shaped e = false) {q : Q} :
    .query q ∈ e.parts ↔ unnamed e = some q := by
  cases e with
  | Array array =>
    cases array with
    | Subquery query => cases he
    | _ => simp [Expr.parts, unnamed]
  | JsonArray body => cases body <;> simp [Expr.parts, unnamed, eq_comm]
  | InSubquery _ _ => cases he
  | Exists _ => cases he
  | Subquery _ => cases he
  | _ => simp [Expr.parts, unnamed, eq_comm]

/-- One step of the walk, from a node it does not stop at. -/
theorem expr_contains_subquery_step (visit_query : Q → Bool) {e : Expr Q}
    (he : subquery_shaped e = false) :
    expr_contains_subquery visit_query e = true ↔
      (∃ d, .expr d ∈ e.parts ∧ expr_contains_subquery visit_query d = true) ∨
        ∃ q, .query q ∈ e.parts ∧ visit_query q = true := by
  rw [expr_contains_subquery, if_neg (Bool.eq_false_iff.mp he), List.any_eq_true]
  constructor
  · rintro ⟨⟨part, hpart⟩, -, hfound⟩
    cases part with
    | expr d => exact .inl ⟨d, hpart, hfound⟩
    | query q => exact .inr ⟨q, hpart, hfound⟩
  · rintro (⟨d, hpart, hfound⟩ | ⟨q, hpart, hfound⟩)
    · exact ⟨⟨_, hpart⟩, List.mem_attach _ _, hfound⟩
    · exact ⟨⟨_, hpart⟩, List.mem_attach _ _, hfound⟩

/-- What the walk finds: a node it stops at, or one in the query of a node it goes through. -/
theorem expr_contains_subquery_iff (visit_query : Q → Bool) (e : Expr Q) :
    expr_contains_subquery visit_query e = true ↔
      ∃ d, Within e d ∧ (subquery_shaped d = true ∨ ∃ q ∈ unnamed d, visit_query q = true) := by
  induction hsize : sizeOf e using Nat.strong_induction_on generalizing e with
  | _ size ih =>
    subst hsize
    by_cases he : subquery_shaped e = true
    · rw [expr_contains_subquery, if_pos he]
      exact iff_of_true rfl ⟨e, .self, .inl he⟩
    · rw [expr_contains_subquery_step visit_query (Bool.eq_false_iff.mpr he)]
      constructor
      · rintro (⟨d, hpart, hfound⟩ | ⟨q, hpart, hfound⟩)
        · obtain ⟨d', hwithin, hd'⟩ := (ih _ (Expr.sizeOf_part hpart) d rfl).mp hfound
          exact ⟨d', .of_part hpart hwithin, hd'⟩
        · have hq := (query_part_unnamed (Bool.eq_false_iff.mpr he)).mp hpart
          exact ⟨e, .self, .inr ⟨q, hq, hfound⟩⟩
      · rintro ⟨d', hwithin, hd'⟩
        obtain rfl | ⟨d, hpart, hd⟩ := hwithin.cases_part
        · obtain hshaped | ⟨q, hq, hfound⟩ := hd'
          · exact absurd hshaped he
          · exact .inr ⟨q, (query_part_unnamed (Bool.eq_false_iff.mpr he)).mpr hq, hfound⟩
        · exact .inl ⟨d, hpart, (ih _ (Expr.sizeOf_part hpart) d rfl).mpr ⟨d', hd, hd'⟩⟩

theorem hasQuery_iff (e : Expr Q) :
    HasQuery e ↔ ∃ d, Within e d ∧ (subquery_shaped d = true ∨ (unnamed d).isSome = true) := by
  constructor
  · rintro ⟨d, q, hwithin, hpart⟩
    exact ⟨d, hwithin, query_part_iff.mp ⟨q, hpart⟩⟩
  · rintro ⟨d, hwithin, hd⟩
    obtain ⟨q, hpart⟩ := query_part_iff.mpr hd
    exact ⟨d, q, hwithin, hpart⟩

/-- Where subqueries are gated, the gate lets exactly the expressions without a query through, but
for those whose only queries belong to quantified comparisons and `JSON_ARRAY`. -/
theorem check_subquery_gate_exact_iff { constraint_syntax : ConstraintSyntax}
    (hgated : constraint_syntax.check_constraint_subqueries = false) (visit_query : Q → Bool)
    (e : Expr Q) :
    (reject_check_subquery_if_gated constraint_syntax visit_query e = .ok () ↔ ¬ HasQuery e) ↔
      (∀ d, Within e d → unnamed d = none) ∨
        ∃ d, Within e d ∧ (subquery_shaped d = true ∨ ∃ q ∈ unnamed d, visit_query q = true) := by
  have hgate : reject_check_subquery_if_gated constraint_syntax visit_query e = .ok () ↔
      ¬ expr_contains_subquery visit_query e = true := by
    rw [reject_check_subquery_if_gated, hgated, if_neg Bool.false_ne_true]
    split <;> simp_all
  rw [hgate, expr_contains_subquery_iff, hasQuery_iff, not_iff_not]
  constructor
  · intro hexact
    by_cases hnone : ∀ d, Within e d → unnamed d = none
    · exact .inl hnone
    · push Not at hnone
      obtain ⟨d, hwithin, hd⟩ := hnone
      exact .inr (hexact.mpr ⟨d, hwithin, .inr (Option.isSome_iff_ne_none.mpr hd)⟩)
  · rintro (hnone | hfound)
    · apply exists_congr
      intro d
      apply and_congr_right
      intro hwithin
      rw [hnone d hwithin]
      simp
    · apply iff_of_true hfound
      obtain ⟨d, hwithin, hd⟩ := hfound
      refine ⟨d, hwithin, hd.imp id ?_⟩
      rintro ⟨q, hq, -⟩
      exact Option.isSome_of_mem hq

/-- `a + 1 IN (SELECT ..)` is rejected, and holds a query. -/
theorem check_subquery_gate_exact_in :
    (reject_check_subquery_if_gated .DUCKDB (fun _ : Unit => false)
        (.InSubquery (.BinaryOp .Column .Literal) ()) = .ok () ↔
      ¬ HasQuery (Expr.InSubquery (.BinaryOp .Column .Literal) ())) :=
  (check_subquery_gate_exact_iff rfl _ _).mpr (.inr ⟨_, .self, .inl rfl⟩)

/-- `a = ANY (SELECT 1)` holds a query and is let through. -/
theorem check_subquery_gate_quantified :
    reject_check_subquery_if_gated .DUCKDB (fun _ : Unit => false)
        (.QuantifiedComparison .Column ()) = .ok () ∧
      HasQuery (Expr.QuantifiedComparison .Column ()) := by
  constructor
  · have hnot : ¬ expr_contains_subquery (fun _ : Unit => false)
        (.QuantifiedComparison .Column ()) = true := by
      rw [expr_contains_subquery_iff]
      rintro ⟨d, hwithin, hd⟩
      obtain rfl | ⟨d', hpart, hd'⟩ := hwithin.cases_part
      · simp [subquery_shaped] at hd
      · have hcolumn : d' = .Column := by simpa [Expr.parts] using hpart
        subst hcolumn
        obtain rfl | ⟨d'', hpart', -⟩ := hd'.cases_part
        · simp [subquery_shaped] at hd
        · cases hpart'
    rw [reject_check_subquery_if_gated, if_neg (by decide), if_neg hnot]
  · exact ⟨_, (), .self, List.mem_cons_of_mem _ List.mem_cons_self⟩

end squonk.parser.check_gate
