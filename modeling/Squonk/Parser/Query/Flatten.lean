import Squonk.Parser.Query.Body

/-!
# The clauses of flattened operands

A parenthesized query is stored without its parentheses when it carries none of five clauses.
A query has ten. The source is read here a second time with every parenthesis kept, and the
clauses of the two trees are compared, at one operand and over a whole source.
-/

open squonk.ast squonk.tokenizer squonk.dialect

namespace squonk.ast

variable {L : Leaves}

/-- The clauses of a query, without its body. -/
structure Clauses (L : Leaves) where
  «with» : Option (With L)
  order_by : List (OrderByExpr L)
  order_by_all : Option OrderByAll
  limit_by : Option (LimitBy L)
  limit : Option (Limit L)
  settings : List (Setting L)
  format : Option (FormatClause L)
  locking : List (LockingClause L)
  pipe_operators : List L.PipeOperator
  for_clause : Option (ForClause L)

def Clauses.empty : Clauses L where
  «with» := none
  order_by := []
  order_by_all := none
  limit_by := none
  limit := none
  settings := []
  format := none
  locking := []
  pipe_operators := []
  for_clause := none

namespace Query

def clauses (query : Query L) : Clauses L where
  «with» := query.with
  order_by := query.order_by
  order_by_all := query.order_by_all
  limit_by := query.limit_by
  limit := query.limit
  settings := query.settings
  format := query.format
  locking := query.locking
  pipe_operators := query.pipe_operators
  for_clause := query.for_clause

/-- One of the clauses that the flattening test does not ask for is there. -/
def carries_unchecked (query : Query L) : Bool :=
  query.limit_by.isSome || !query.settings.isEmpty || query.format.isSome
    || !query.pipe_operators.isEmpty || query.for_clause.isSome

def carries_clause (query : Query L) : Bool :=
  parser.keeps_parentheses query || query.carries_unchecked

/-- A query whose clauses survive its parentheses: the test keeps it, or it carries none of the
clauses the test leaves out. -/
def Guarded (query : Query L) : Prop :=
  parser.keeps_parentheses query = true ∨ query.carries_unchecked = false

theorem carries_clause_eq_false_iff (query : Query L) :
    query.carries_clause = false ↔ query.clauses = .empty := by
  obtain ⟨w, body, ob, oba, lb, l, st, fmt, lk, po, fc⟩ := query
  simp only [clauses, Clauses.empty, carries_clause, parser.keeps_parentheses, carries_unchecked,
    Clauses.mk.injEq, Bool.and_eq_true, Option.isNone_iff_eq_none, List.isEmpty_iff,
    Bool.or_eq_false_iff, Option.isSome_eq_false_iff, Bool.not_eq_eq_eq_not, Bool.not_false]
  grind

theorem carries_clause_iff (query : Query L) :
    query.carries_clause = true ↔ query.clauses ≠ .empty := by
  rw [ne_eq, ← query.carries_clause_eq_false_iff, Bool.not_eq_false]

theorem body_ne_query (query : Query L) : query.body ≠ .Query query := by
  intro h
  have hsize := congrArg sizeOf h
  cases query
  simp at hsize
  omega

/-- Outside the guarded queries the test drops the parentheses of one that carries a clause. -/
theorem not_guarded_iff (query : Query L) :
    ¬query.Guarded ↔
      parser.keeps_parentheses query = false ∧ query.carries_clause = true := by
  simp only [Guarded, carries_clause]
  cases parser.keeps_parentheses query <;> simp

end Query

mutual

/-- The tree that is left when the parentheses of every unkept query are dropped. -/
def Query.flatten : Query L → Query L
  | ⟨w, body, ob, oba, lb, l, st, fmt, lk, po, fc⟩ =>
    ⟨w, body.flatten, ob, oba, lb, l, st, fmt, lk, po, fc⟩

def SetExpr.flatten : SetExpr L → SetExpr L
  | .Query query =>
    if parser.keeps_parentheses query then .Query query.flatten else query.flatten.body
  | .SetOperation op all by_name left right =>
    .SetOperation op all by_name left.flatten right.flatten
  | .Select select => .Select select
  | .Values values => .Values values
  | .Pivot pivot => .Pivot pivot
  | .Unpivot unpivot => .Unpivot unpivot

end

mutual

/-- The queries with clauses that stand in parentheses in the tree, in source order. -/
def SetExpr.written : SetExpr L → List (Clauses L)
  | .Query query =>
    if query.carries_clause then
      query.clauses :: query.bodyWritten
    else
      query.bodyWritten
  | .SetOperation _ _ _ left right => left.written ++ right.written
  | .Select _ | .Values _ | .Pivot _ | .Unpivot _ => []

def Query.bodyWritten : Query L → List (Clauses L)
  | ⟨_, body, _, _, _, _, _, _, _, _, _⟩ => body.written

end

mutual

/-- Every parenthesized query of the tree is guarded. -/
def SetExpr.Guarded : SetExpr L → Prop
  | .Query query => query.Guarded ∧ query.BodyGuarded
  | .SetOperation _ _ _ left right => left.Guarded ∧ right.Guarded
  | .Select _ | .Values _ | .Pivot _ | .Unpivot _ => True

def Query.BodyGuarded : Query L → Prop
  | ⟨_, body, _, _, _, _, _, _, _, _, _⟩ => body.Guarded

end

@[simp] theorem Query.clauses_flatten (query : Query L) :
    query.flatten.clauses = query.clauses := by
  cases query
  simp only [Query.flatten, Query.clauses]

@[simp] theorem Query.body_flatten (query : Query L) :
    query.flatten.body = query.body.flatten := by
  cases query
  simp only [Query.flatten]

@[simp] theorem Query.keeps_parentheses_flatten (query : Query L) :
    parser.keeps_parentheses query.flatten = parser.keeps_parentheses query := by
  cases query
  simp only [Query.flatten, parser.keeps_parentheses]

@[simp] theorem Query.carries_clause_flatten (query : Query L) :
    query.flatten.carries_clause = query.carries_clause := by
  cases query
  simp only [Query.flatten, Query.carries_clause, parser.keeps_parentheses,
    Query.carries_unchecked]

@[simp] theorem Query.bodyWritten_eq (query : Query L) :
    query.bodyWritten = query.body.written := by
  cases query
  simp only [Query.bodyWritten]

@[simp] theorem Query.bodyGuarded_iff (query : Query L) :
    query.BodyGuarded ↔ query.body.Guarded := by
  cases query
  simp only [Query.BodyGuarded]

/-- An induction over set expressions that goes through the bodies of parenthesized queries. -/
theorem SetExpr.bodies {P : SetExpr L → Prop}
    (select : ∀ select, P (.Select select)) (values : ∀ values, P (.Values values))
    (pivot : ∀ pivot, P (.Pivot pivot)) (unpivot : ∀ unpivot, P (.Unpivot unpivot))
    (query : ∀ query, P query.body → P (.Query query))
    (operation : ∀ op all by_name left right, P left → P right →
      P (.SetOperation op all by_name left right)) :
    ∀ e, P e
  | .Select s => select s
  | .Values v => values v
  | .Pivot p => pivot p
  | .Unpivot u => unpivot u
  | .Query ⟨w, body, ob, oba, lb, l, st, fmt, lk, po, fc⟩ =>
    query ⟨w, body, ob, oba, lb, l, st, fmt, lk, po, fc⟩
      (SetExpr.bodies select values pivot unpivot query operation body)
  | .SetOperation op all by_name left right =>
    operation op all by_name left right
      (SetExpr.bodies select values pivot unpivot query operation left)
      (SetExpr.bodies select values pivot unpivot query operation right)

namespace SetExpr

theorem length_written_flatten_le (e : SetExpr L) :
    e.flatten.written.length ≤ e.written.length := by
  induction e using SetExpr.bodies with
  | query q ih =>
    simp only [flatten, written]
    cases hk : parser.keeps_parentheses q with
    | true => cases hc : q.carries_clause <;> simp [written, hc, ih]
    | false => cases hc : q.carries_clause <;> simp <;> omega
  | operation op all by_name left right ihl ihr =>
    simp only [flatten, written, List.length_append]
    omega
  | _ => simp [flatten, written]

/-- Flattening loses no clause of a tree exactly when every parenthesized query is guarded. -/
theorem written_flatten_iff (e : SetExpr L) :
    e.flatten.written = e.written ↔ e.Guarded := by
  induction e using SetExpr.bodies with
  | query q ih =>
    have hle := q.body.length_written_flatten_le
    simp only [Guarded, flatten, written, Query.bodyGuarded_iff, ← ih]
    by_cases hg : q.Guarded
    · have hkc : parser.keeps_parentheses q = q.carries_clause := by
        rcases hg with hk | hu
        · simp [Query.carries_clause, hk]
        · simp [Query.carries_clause, hu]
      cases hc : q.carries_clause <;> simp [hkc, hc, hg, written]
    · obtain ⟨hk, hc⟩ := q.not_guarded_iff.mp hg
      simp only [hk, hc, hg, false_and, iff_false]
      intro heq
      have := congrArg List.length heq
      simp at this
      omega
  | operation op all by_name left right ihl ihr =>
    have hl := left.length_written_flatten_le
    have hr := right.length_written_flatten_le
    simp only [flatten, written, Guarded, ← ihl, ← ihr]
    constructor
    · intro heq
      have hlen := congrArg List.length heq
      simp only [List.length_append] at hlen
      exact List.append_inj heq (by omega)
    · rintro ⟨hl, hr⟩
      rw [hl, hr]
  | _ => simp [flatten, written, Guarded]

end SetExpr

end squonk.ast
