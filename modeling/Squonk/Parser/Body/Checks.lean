import Squonk.Parser.Body.Scope

/-!
# The label checks of a body

The places of a body where labels decide, each with the labels of the constructs around it. A
body that is read without its label tests is read with them, to the same tree, where all of its
checks pass.
-/

open squonk.tokenizer squonk.tokenizer.scan

namespace squonk.parser.body

variable {α β : Type}

/-! ## The checks of a tree -/

/-- The frame of a labelled block or loop. -/
def Statement.frame : Statement → Option LabelFrame
  | .Compound label .. => label.map (⟨·, .Block⟩)
  | .Loop label .. | .While label .. | .Repeat label .. => label.map (⟨·, .Loop⟩)
  | _ => none

/-- The check of the label that a construct puts on itself. -/
def fresh_checks (labels : List LabelFrame) : Option LabelFrame → List Check
  | some frame => [.fresh labels frame.label]
  | none => []

mutual

/-- The checks from behind the label of a statement on, which is among `labels`. -/
@[simp]
def Statement.inner_checks (labels : List LabelFrame) : Statement → List Check
  | .Compound label declarations body end_label =>
    declaration_checks labels declarations ++
      (body_checks labels body ++ [.ends label end_label])
  | .If branches else_body | .Case _ branches else_body =>
    branch_checks labels branches ++ else_checks labels else_body
  | .Loop label body end_label | .While label _ body end_label | .Repeat label body _ end_label =>
    body_checks labels body ++ [.ends label end_label]
  | .Leave label => [.leaves labels label]
  | .Iterate label => [.iterates labels label]
  | .Return _ | .OpenCursor _ | .FetchCursor .. | .CloseCursor _ | .Plain _ => []

/-- The checks of statements that stand side by side. -/
def body_checks (labels : List LabelFrame) : List Statement → List Check
  | [] => []
  | head :: tail =>
    (fresh_checks labels head.frame ++ head.inner_checks (labels ++ head.frame.toList)) ++
      body_checks labels tail

/-- A handler has a body statement of its own. -/
def declaration_checks (labels : List LabelFrame) : List Declaration → List Check
  | [] => []
  | .Handler _ _ body :: tail =>
    (fresh_checks labels body.frame ++ body.inner_checks (labels ++ body.frame.toList)) ++
      declaration_checks labels tail
  | .Variable .. :: tail | .Condition .. :: tail | .Cursor .. :: tail =>
    declaration_checks labels tail

def branch_checks (labels : List LabelFrame) : List ConditionalBranch → List Check
  | [] => []
  | .mk _ body :: tail => body_checks labels body ++ branch_checks labels tail

def else_checks (labels : List LabelFrame) : Option (List Statement) → List Check
  | none => []
  | some body => body_checks labels body

end

/-- All checks of a statement inside of constructs with these labels. -/
def Statement.checks (labels : List LabelFrame) (statement : Statement) : List Check :=
  fresh_checks labels statement.frame ++
    statement.inner_checks (labels ++ statement.frame.toList)

def Declaration.checks (labels : List LabelFrame) : Declaration → List Check
  | .Handler _ _ body => body.checks labels
  | .Variable .. | .Condition .. | .Cursor .. => []

def ConditionalBranch.checks (labels : List LabelFrame) : ConditionalBranch → List Check
  | .mk _ body => body_checks labels body

theorem body_checks_eq (labels : List LabelFrame) (body : List Statement) :
    body_checks labels body = body.flatMap (Statement.checks labels) := by
  induction body with
  | nil => rfl
  | cons head tail ih =>
    rw [body_checks, List.flatMap_cons, ih]
    rfl

theorem declaration_checks_eq (labels : List LabelFrame) (declarations : List Declaration) :
    declaration_checks labels declarations =
      declarations.flatMap (Declaration.checks labels) := by
  induction declarations with
  | nil => rfl
  | cons head tail ih =>
    rw [List.flatMap_cons, ← ih]
    cases head <;> rfl

theorem branch_checks_eq (labels : List LabelFrame) (branches : List ConditionalBranch) :
    branch_checks labels branches = branches.flatMap (ConditionalBranch.checks labels) := by
  induction branches with
  | nil => rfl
  | cons head tail ih =>
    rw [List.flatMap_cons, ← ih]
    cases head
    rfl

/-! ## Methods with their label tests and without -/

/-- All values of a method that ends well. -/
def Yields (method : ParseResult α) (P : α → Prop) : Prop :=
  ∀ s a t, method s = .ok a t → P a

theorem yields_bind {method : ParseResult α} {next : α → ParseResult β} {P : β → Prop}
    (hnext : ∀ a, Yields (next a) P) : Yields (method >>= next) P := by
  intro s b t h
  rw [bind_eq_ok_iff] at h
  obtain ⟨a, u, _, h⟩ := h
  exact hnext a u b t h

theorem yields_pure {a : α} {P : α → Prop} (h : P a) : Yields (pure a) P := by
  intro s b t hpure
  obtain ⟨rfl, rfl⟩ := pure_eq_ok_iff.mp hpure
  exact h

theorem yields_throw {error : ParseError} {P : α → Prop} :
    Yields (throw error : ParseResult α) P :=
  fun _ _ _ h => (throw_ne_ok.mp h).elim

theorem yields_ite {p : Prop} [Decidable p] {yes no : ParseResult α} {P : α → Prop}
    (hyes : Yields yes P) (hno : Yields no P) : Yields (if p then yes else no) P := by
  by_cases hp : p
  · rw [if_pos hp]
    exact hyes
  · rw [if_neg hp]
    exact hno

/-- No test is asked. -/
def untested : Check → Bool := fun _ => true

section
variable (tests : Check → Bool)

/-- The tests refuse a run of a method where they refuse one of the checks of its value, and
change nothing else. -/
def Judged (method : (Check → Bool) → ParseResult α)
    (checks : List LabelFrame → α → List Check) : Prop :=
  ∀ s a t, method tests s = .ok a t ↔
    method untested s = .ok a t ∧ ∀ check ∈ checks s.labels a, tests check = true

end

section
variable {tests : Check → Bool}

/-- A method that asks no test. -/
theorem judged_same (method : ParseResult α) : Judged tests (fun _ => method) fun _ _ => [] := by
  intro s a t
  constructor
  · intro h
    refine ⟨h, ?_⟩
    intro check hmem
    cases hmem
  · intro h
    exact h.1

theorem judged_bind (rest : α → List LabelFrame → β → List Check)
    {method : (Check → Bool) → ParseResult α} {next : (Check → Bool) → α → ParseResult β}
    {first : List LabelFrame → α → List Check} {checks : List LabelFrame → β → List Check}
    (hmethod : Judged tests method first) (hkept : Kept (method untested))
    (hnext : ∀ a, Judged tests (fun tests => next tests a) (rest a))
    (hchecks : ∀ a, Yields (next untested a) fun b =>
      ∀ labels, checks labels b = first labels a ++ rest a labels b) :
    Judged tests (fun tests => method tests >>= next tests) checks := by
  intro s b t
  show (method tests >>= next tests) s = .ok b t ↔
    (method untested >>= next untested) s = .ok b t ∧ _
  rw [bind_eq_ok_iff, bind_eq_ok_iff]
  constructor
  · rintro ⟨a, u, ha, hb⟩
    obtain ⟨ha, hfirst⟩ := (hmethod s a u).mp ha
    obtain ⟨hb, hrest⟩ := (hnext a u b t).mp hb
    refine ⟨⟨a, u, ha, hb⟩, ?_⟩
    rw [hchecks a u b t hb s.labels]
    intro check hmem
    rw [List.mem_append] at hmem
    obtain hmem | hmem := hmem
    · exact hfirst check hmem
    · rw [← (hkept.ok ha).labels] at hmem
      exact hrest check hmem
  · rintro ⟨⟨a, u, ha, hb⟩, hall⟩
    rw [hchecks a u b t hb s.labels] at hall
    refine ⟨a, u, (hmethod s a u).mpr ⟨ha, ?_⟩, (hnext a u b t).mpr ⟨hb, ?_⟩⟩
    · intro check hmem
      exact hall check (List.mem_append_left _ hmem)
    · intro check hmem
      rw [(hkept.ok ha).labels] at hmem
      exact hall check (List.mem_append_right _ hmem)

/-- What is read before the first test. -/
theorem judged_after {method : ParseResult α} {next : (Check → Bool) → α → ParseResult β}
    {checks : List LabelFrame → β → List Check} (hkept : Kept method)
    (hnext : ∀ a, Judged tests (fun tests => next tests a) checks) :
    Judged tests (fun tests => method >>= next tests) checks := by
  apply judged_bind (fun _ => checks) (judged_same method) hkept hnext
  intro a s b t _ labels
  rfl

/-- What is read behind the last test. -/
theorem judged_before {method : (Check → Bool) → ParseResult α} {next : α → ParseResult β}
    {first : List LabelFrame → α → List Check} {checks : List LabelFrame → β → List Check}
    (hmethod : Judged tests method first) (hkept : Kept (method untested))
    (hchecks : ∀ a, Yields (next a) fun b => ∀ labels, checks labels b = first labels a) :
    Judged tests (fun tests => method tests >>= next) checks := by
  apply judged_bind (fun _ _ _ => []) hmethod hkept (fun a => judged_same (next a))
  intro a s b t hb labels
  rw [hchecks a s b t hb labels, List.append_nil]

theorem judged_ite {p : Prop} [Decidable p] {yes no : (Check → Bool) → ParseResult α}
    {checks : List LabelFrame → α → List Check} (hyes : Judged tests yes checks)
    (hno : Judged tests no checks) :
    Judged tests (fun tests => if p then yes tests else no tests) checks := by
  by_cases hp : p
  · simp only [if_pos hp]
    exact hyes
  · simp only [if_neg hp]
    exact hno

/-- A method that asks no test and whose values have no check. -/
theorem judged_none {method : ParseResult α} {checks : List LabelFrame → α → List Check}
    (h : Yields method fun a => ∀ labels, checks labels a = []) :
    Judged tests (fun _ => method) checks := by
  intro s a t
  constructor
  · intro hok
    refine ⟨hok, ?_⟩
    rw [h s a t hok s.labels]
    intro check hmem
    cases hmem
  · intro hok
    exact hok.1

theorem test_eq_ok_iff {check : Check} {expected : String} {found : List Char}
    {method : ParseResult α} {s t : State} {a : α} :
    (if (!tests check) = true then error_at expected found else method) s = .ok a t ↔
      tests check = true ∧ method s = .ok a t := by
  by_cases hpass : tests check = true
  · rw [if_neg (by rw [hpass]; exact Bool.false_ne_true)]
    exact ⟨fun h => ⟨hpass, h⟩, fun h => h.2⟩
  · rw [if_pos (by rw [Bool.eq_false_of_not_eq_true hpass]; rfl)]
    exact ⟨fun h => (throw_ne_ok.mp h).elim, fun h => absurd h.1 hpass⟩

/-- One test, and the value that is returned where it passes. -/
theorem judged_test (check : Check) {expected : String} {found : List Char}
    {method : ParseResult α} {checks : List LabelFrame → α → List Check}
    (h : Yields method fun a => ∀ labels, checks labels a = [check]) :
    Judged tests (fun tests => if (!tests check) = true then error_at expected found else method)
      checks := by
  intro s a t
  rw [test_eq_ok_iff, test_eq_ok_iff]
  constructor
  · rintro ⟨hpass, hok⟩
    refine ⟨⟨rfl, hok⟩, ?_⟩
    rw [h s a t hok s.labels]
    simpa using hpass
  · rintro ⟨⟨_, hok⟩, hall⟩
    rw [h s a t hok s.labels] at hall
    exact ⟨hall check (List.mem_singleton_self check), hok⟩

/-- One test against the active labels. -/
theorem judged_labels_test (check : List LabelFrame → Check) {expected : String}
    {found : List Char} {method : ParseResult α} {checks : List LabelFrame → α → List Check}
    (h : Yields method fun a => ∀ labels, checks labels a = [check labels]) :
    Judged tests (fun tests => do
      let labels := (← get).labels
      if !tests (check labels) then error_at expected found else method) checks := by
  intro s a t
  simp only [bind_eq_ok_iff, get_eq_ok_iff, test_eq_ok_iff]
  constructor
  · rintro ⟨_, _, ⟨rfl, rfl⟩, hpass, hok⟩
    refine ⟨⟨s, s, ⟨rfl, rfl⟩, rfl, hok⟩, ?_⟩
    rw [h s a t hok s.labels]
    simpa using hpass
  · rintro ⟨⟨_, _, ⟨rfl, rfl⟩, _, hok⟩, hall⟩
    rw [h s a t hok s.labels] at hall
    exact ⟨s, s, ⟨rfl, rfl⟩, hall _ (List.mem_singleton_self _), hok⟩

/-- The checks of a round, if it is not the last. -/
def round_checks {σ : Type} (item : List LabelFrame → α → List Check)
    (labels : List LabelFrame) : Option (α × σ) → List Check
  | some step => item labels step.1
  | none => []

theorem judged_repeat_rounds {σ : Type}
    {round : (Check → Bool) → σ → ParseResult (Option (α × σ))}
    {item : List LabelFrame → α → List Check}
    (hround : ∀ carried, Judged tests (fun tests => round tests carried) (round_checks item))
    (hkept : ∀ carried, Kept (round untested carried)) (carried : σ) :
    Judged tests (fun tests => repeat_rounds (round tests) carried)
      fun labels items => items.flatMap (item labels) := by
  have hrounds (n : Nat) (carried : σ) :
      Judged tests (fun tests => rounds (round tests) n carried)
        fun labels items => items.flatMap (item labels) := by
    induction n generalizing carried with
    | zero =>
      apply judged_none
      apply yields_pure
      intro labels
      rfl
    | succ n ih =>
      apply judged_bind
        (fun step labels items =>
          match step with
          | some _ => items.tail.flatMap (item labels)
          | none => [])
        (hround carried) (hkept carried)
      · intro step
        cases step with
        | none => exact judged_same _
        | some step =>
          apply judged_before (ih step.2) (kept_rounds hkept n step.2)
          intro tail
          apply yields_pure
          intro labels
          rfl
      · intro step
        cases step with
        | none =>
          apply yields_pure
          intro labels
          rfl
        | some step =>
          apply yields_bind
          intro tail
          apply yields_pure
          intro labels
          exact List.flatMap_cons
  exact judged_after kept_get fun s => hrounds s.tokens.length carried

end

end squonk.parser.body
