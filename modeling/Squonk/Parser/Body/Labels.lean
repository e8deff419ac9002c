import Squonk.Parser.Body.Checks

/-!
# Labels in scope

The parser reads a body, as far as labels are concerned, where its own label tests pass. They
compare the source text of labels, and no end label with a label that is not there, which parts
them from the rules of the server.
-/

open squonk.tokenizer squonk.tokenizer.scan

namespace squonk.parser.body

/-! ## Every method asks the checks of its tree -/

section
variable (around : Around) {tests : Check → Bool}

/-- The checks of the end label. -/
def Statement.end_checks : Statement → List Check
  | .Compound label _ _ end_label | .Loop label _ end_label | .While label _ _ end_label
  | .Repeat label _ _ end_label => [.ends label end_label]
  | _ => []

/-- The rest of a block behind its declarations. -/
def Statement.block_checks (labels : List LabelFrame) : Statement → List Check
  | .Compound label _ body end_label => body_checks labels body ++ [.ends label end_label]
  | _ => []

def Statement.rest_else_checks (labels : List LabelFrame) : Statement → List Check
  | .If _ else_body | .Case _ _ else_body => else_checks labels else_body
  | _ => []

theorem judged_end_label {label : Option Ident} {tree : Option Ident → Statement}
    (htree : ∀ end_label, (tree end_label).end_checks = [.ends label end_label]) :
    Judged tests (fun tests => do
      let end_label ← parse_optional_end_label around
      check_label_match tests label end_label
      return tree end_label) fun _ statement => statement.end_checks := by
  apply judged_after (kept_parse_optional_end_label around)
  intro end_label
  have hends : Judged tests (fun tests => check_label_match tests label end_label)
      fun _ _ => [.ends label end_label] :=
    judged_test (.ends label end_label) (yields_pure fun _ => rfl)
  apply judged_before hends (kept_check_label_match untested label end_label)
  intro _
  apply yields_pure
  intro labels
  exact htree end_label

theorem yields_end_label {label : Option Ident} {tree : Option Ident → Statement}
    {P : Statement → Prop} (h : ∀ end_label, P (tree end_label)) :
    Yields (do
      let end_label ← parse_optional_end_label around
      check_label_match untested label end_label
      return tree end_label) P := by
  apply yields_bind
  intro end_label
  apply yields_bind
  intro _
  exact yields_pure (h end_label)

theorem judged_parse_leave_statement :
    Judged tests (parse_leave_statement around) Statement.inner_checks := by
  apply judged_after (kept_expect_contextual_keyword _)
  intro _
  apply judged_after (kept_parse_ident around)
  intro label
  apply judged_labels_test (.leaves · label)
  apply yields_pure
  intro labels
  rfl

theorem judged_parse_iterate_statement :
    Judged tests (parse_iterate_statement around) Statement.inner_checks := by
  apply judged_after (kept_expect_contextual_keyword _)
  intro _
  apply judged_after (kept_parse_ident around)
  intro label
  apply judged_labels_test (.iterates · label)
  apply yields_pure
  intro labels
  rfl

theorem judged_parse_label_frame (label : Ident) :
    Judged tests (fun tests => parse_label_frame tests label)
      fun labels frame => fresh_checks labels (some frame) := by
  apply judged_labels_test (.fresh · label)
  apply yields_bind
  intro found
  apply yields_ite
  · apply yields_pure
    intro labels
    rfl
  · apply yields_pure
    intro labels
    rfl

/-! ### The trees that methods return -/

section
variable {around} {level : Nat} {statement : ParseResult Statement} {label : Option Ident}
  {P : Statement → Prop}

theorem yields_parse_compound_statement
    (h : ∀ declarations body end_label, P (.Compound label declarations body end_label)) :
    Yields (parse_compound_statement around untested level statement label) P := by
  apply yields_bind
  intro _
  apply yields_bind
  intro declarations
  apply yields_bind
  intro body
  apply yields_bind
  intro _
  exact yields_end_label around (h declarations body)

theorem yields_parse_loop_statement (h : ∀ body end_label, P (.Loop label body end_label)) :
    Yields (parse_loop_statement around untested statement label) P := by
  apply yields_bind
  intro _
  apply yields_bind
  intro body
  apply yields_bind
  intro _
  apply yields_bind
  intro _
  exact yields_end_label around (h body)

theorem yields_parse_while_statement
    (h : ∀ condition body end_label, P (.While label condition body end_label)) :
    Yields (parse_while_statement around untested level statement label) P := by
  apply yields_bind
  intro _
  apply yields_bind
  intro condition
  apply yields_bind
  intro _
  apply yields_bind
  intro body
  apply yields_bind
  intro _
  apply yields_bind
  intro _
  exact yields_end_label around (h condition body)

theorem yields_parse_repeat_statement
    (h : ∀ body condition end_label, P (.Repeat label body condition end_label)) :
    Yields (parse_repeat_statement around untested level statement label) P := by
  apply yields_bind
  intro _
  apply yields_bind
  intro body
  apply yields_bind
  intro _
  apply yields_bind
  intro condition
  apply yields_bind
  intro _
  apply yields_bind
  intro _
  exact yields_end_label around (h body condition)

theorem yields_parse_if_statement (h : ∀ branches else_body, P (.If branches else_body)) :
    Yields (parse_if_statement around level statement) P := by
  apply yields_bind
  intro _
  apply yields_bind
  intro branches
  apply yields_bind
  intro else_body
  apply yields_bind
  intro _
  apply yields_bind
  intro _
  exact yields_pure (h branches else_body)

theorem yields_parse_case_statement
    (h : ∀ operand branches else_body, P (.Case operand branches else_body)) :
    Yields (parse_case_statement around level statement) P := by
  apply yields_bind
  intro _
  apply yields_bind
  intro operand
  apply yields_bind
  intro _
  apply yields_bind
  intro branches
  apply yields_bind
  intro else_body
  apply yields_bind
  intro _
  apply yields_bind
  intro _
  exact yields_pure (h operand branches else_body)

theorem yields_parse_leave_statement (h : ∀ label, P (.Leave label)) :
    Yields (parse_leave_statement around untested) P := by
  apply yields_bind
  intro _
  apply yields_bind
  intro label
  apply yields_bind
  intro s
  apply yields_ite
  · exact yields_throw
  · exact yields_pure (h label)

theorem yields_parse_iterate_statement (h : ∀ label, P (.Iterate label)) :
    Yields (parse_iterate_statement around untested) P := by
  apply yields_bind
  intro _
  apply yields_bind
  intro label
  apply yields_bind
  intro s
  apply yields_ite
  · exact yields_throw
  · exact yields_pure (h label)

/-- The constructs in which no label stands. -/
theorem yields_untested_construct (hreturn : ∀ value, P (.Return value))
    (hopen : ∀ cursor, P (.OpenCursor cursor))
    (hfetch : ∀ next_keyword from_keyword cursor targets,
      P (.FetchCursor next_keyword from_keyword cursor targets))
    (hclose : ∀ cursor, P (.CloseCursor cursor)) :
    Yields (do
      if ← peek_is_contextual_keyword "RETURN" then
        parse_return_statement around level
      else if ← peek_is_contextual_keyword "OPEN" then
        parse_open_cursor_statement around
      else if ← peek_is_contextual_keyword "FETCH" then
        parse_fetch_cursor_statement around
      else if ← peek_is_contextual_keyword "CLOSE" then
        parse_close_cursor_statement around
      else
        unexpected "a compound-body statement") P := by
  apply yields_bind
  intro found
  apply yields_ite
  · apply yields_bind
    intro text
    apply yields_bind
    intro _
    apply yields_ite
    · exact yields_throw
    · apply yields_bind
      intro value
      exact yields_pure (hreturn value)
  apply yields_bind
  intro found
  apply yields_ite
  · apply yields_bind
    intro _
    apply yields_bind
    intro cursor
    exact yields_pure (hopen cursor)
  apply yields_bind
  intro found
  apply yields_ite
  · apply yields_bind
    intro _
    apply yields_bind
    intro next_keyword
    apply yields_bind
    intro from_keyword
    apply yields_ite
    · exact yields_throw
    · apply yields_bind
      intro cursor
      apply yields_bind
      intro _
      apply yields_bind
      intro targets
      exact yields_pure (hfetch next_keyword from_keyword cursor targets)
  apply yields_bind
  intro found
  apply yields_ite
  · apply yields_bind
    intro _
    apply yields_bind
    intro cursor
    exact yields_pure (hclose cursor)
  · exact yields_throw

end

/-! ### Methods that hand on to the body statements of the next level -/

variable (level : Nat) {statement : (Check → Bool) → ParseResult Statement}
  (hkept : Kept (statement untested)) (hstatement : Judged tests statement Statement.checks)
include hkept hstatement

theorem judged_parse_block_body (terminators : List String) :
    Judged tests (fun tests => parse_block_body (statement tests) terminators) body_checks := by
  have hround : ∀ carried, Judged tests
      (fun tests => block_round (statement tests) terminators carried)
      (round_checks Statement.checks) := by
    intro carried
    apply judged_after kept_peek
    intro token
    apply judged_after (kept_peek_is_any_contextual_keyword _)
    intro found
    apply judged_ite
    · apply judged_before hstatement hkept
      intro head
      apply yields_bind
      intro _
      apply yields_pure
      intro labels
      rfl
    · exact judged_none (yields_pure fun _ => rfl)
  have h := judged_repeat_rounds hround (kept_block_round hkept terminators) ()
  have hchecks : body_checks = fun labels body => body.flatMap (Statement.checks labels) := by
    funext labels body
    exact body_checks_eq labels body
  rw [hchecks]
  exact h

theorem judged_parse_declaration :
    Judged tests (fun tests => parse_declaration around level (statement tests))
      Declaration.checks := by
  apply judged_after (kept_expect_contextual_keyword _)
  intro _
  apply judged_after (kept_peek_is_any_contextual_keyword _)
  intro found
  apply judged_ite
  · apply judged_after kept_parse_handler_action
    intro action
    apply judged_after (kept_expect_contextual_keyword _)
    intro _
    apply judged_after (kept_expect_contextual_keyword _)
    intro _
    apply judged_after (kept_parse_comma_separated (kept_parse_handler_condition around level))
    intro conditions
    apply judged_before hstatement hkept
    intro body
    apply yields_pure
    intro labels
    rfl
  · apply judged_none
    apply yields_bind
    intro first
    apply yields_bind
    intro found
    apply yields_ite
    · apply yields_bind
      intro _
      apply yields_bind
      intro value
      exact yields_pure fun _ => rfl
    · apply yields_bind
      intro found
      apply yields_ite
      · apply yields_bind
        intro _
        apply yields_bind
        intro query
        exact yields_pure fun _ => rfl
      · apply yields_bind
        intro names
        apply yields_bind
        intro data_type
        apply yields_bind
        intro default
        exact yields_pure fun _ => rfl

theorem judged_parse_declaration_prefix :
    Judged tests (fun tests => parse_declaration_prefix around level (statement tests))
      declaration_checks := by
  have hround : ∀ max_phase, Judged tests
      (fun tests => declaration_round around level (statement tests) max_phase)
      (round_checks Declaration.checks) := by
    intro max_phase
    apply judged_after (kept_peek_is_contextual_keyword _)
    intro found
    apply judged_ite
    · apply judged_after kept_current_text
      intro text
      apply judged_before (judged_parse_declaration around level hkept hstatement)
        (kept_parse_declaration around level hkept)
      intro declaration
      apply yields_ite
      · apply yields_ite
        · exact yields_throw
        · exact yields_throw
      · apply yields_bind
        intro _
        apply yields_pure
        intro labels
        rfl
    · exact judged_none (yields_pure fun _ => rfl)
  have h := judged_repeat_rounds hround (kept_declaration_round around level hkept) 0
  have hchecks : declaration_checks =
      fun labels declarations => declarations.flatMap (Declaration.checks labels) := by
    funext labels declarations
    exact declaration_checks_eq labels declarations
  rw [hchecks]
  exact h

theorem judged_parse_conditional_branch (terminators : List String) :
    Judged tests
      (fun tests => parse_conditional_branch around level (statement tests) terminators)
      ConditionalBranch.checks := by
  apply judged_after (kept_parse_part _)
  intro guard
  apply judged_after (kept_expect_contextual_keyword _)
  intro _
  apply judged_before (judged_parse_block_body hkept hstatement terminators)
    (kept_parse_block_body hkept terminators)
  intro body
  apply yields_pure
  intro labels
  rfl

theorem judged_parse_conditional_branches (word : String) (terminators : List String) :
    Judged tests
      (fun tests => parse_conditional_branches around level (statement tests) word terminators)
      branch_checks := by
  have hbranch := judged_parse_conditional_branch around level hkept hstatement terminators
  have hbranch_kept := kept_parse_conditional_branch around level hkept terminators
  have hround : ∀ carried, Judged tests
      (fun tests => branch_round around level (statement tests) word terminators carried)
      (round_checks ConditionalBranch.checks) := by
    intro carried
    apply judged_after (kept_eat_contextual_keyword _)
    intro found
    apply judged_ite
    · apply judged_before hbranch hbranch_kept
      intro head
      apply yields_pure
      intro labels
      rfl
    · exact judged_none (yields_pure fun _ => rfl)
  have htail := judged_repeat_rounds hround
    (kept_branch_round around level hkept word terminators) ()
  apply judged_bind
    (fun _ labels branches => branches.tail.flatMap (ConditionalBranch.checks labels))
    hbranch hbranch_kept
  · intro head
    apply judged_before htail
      (kept_repeat_rounds (kept_branch_round around level hkept word terminators) ())
    intro tail
    apply yields_pure
    intro labels
    rfl
  · intro head
    apply yields_bind
    intro tail
    apply yields_pure
    intro labels
    rw [branch_checks_eq, List.flatMap_cons]
    rfl

theorem judged_parse_else_body :
    Judged tests (fun tests => parse_else_body (statement tests)) else_checks := by
  apply judged_after (kept_eat_contextual_keyword _)
  intro found
  apply judged_ite
  · apply judged_before (judged_parse_block_body hkept hstatement _)
      (kept_parse_block_body hkept _)
    intro body
    apply yields_pure
    intro labels
    rfl
  · apply judged_none
    apply yields_pure
    intro labels
    rfl

/-- Branches and the `ELSE` behind them. -/
theorem judged_parse_branched {word : String} {terminators : List String}
    {tree : List ConditionalBranch → Option (List Statement) → Statement}
    {last : ParseResult Unit}
    (htree : ∀ labels branches else_body, (tree branches else_body).inner_checks labels =
      branch_checks labels branches ++ else_checks labels else_body)
    (helse : ∀ labels branches else_body, (tree branches else_body).rest_else_checks labels =
      else_checks labels else_body) :
    Judged tests (fun tests => do
      let branches ← parse_conditional_branches around level (statement tests) word terminators
      let else_body ← parse_else_body (statement tests)
      expect_contextual_keyword "END"
      last
      return tree branches else_body) Statement.inner_checks := by
  apply judged_bind (fun _ labels statement => statement.rest_else_checks labels)
    (judged_parse_conditional_branches around level hkept hstatement word terminators)
    (kept_parse_conditional_branches around level hkept word terminators)
  · intro branches
    apply judged_before (judged_parse_else_body hkept hstatement) (kept_parse_else_body hkept)
    intro else_body
    apply yields_bind
    intro _
    apply yields_bind
    intro _
    apply yields_pure
    intro labels
    exact helse labels branches else_body
  · intro branches
    apply yields_bind
    intro else_body
    apply yields_bind
    intro _
    apply yields_bind
    intro _
    apply yields_pure
    intro labels
    rw [htree, helse]

theorem judged_parse_if_statement :
    Judged tests (fun tests => parse_if_statement around level (statement tests))
      Statement.inner_checks := by
  apply judged_after (kept_expect_contextual_keyword _)
  intro _
  exact judged_parse_branched around level hkept hstatement
    (fun _ _ _ => by rw [Statement.inner_checks]) (fun _ _ _ => rfl)

theorem judged_parse_case_statement :
    Judged tests (fun tests => parse_case_statement around level (statement tests))
      Statement.inner_checks := by
  apply judged_after (kept_expect_contextual_keyword _)
  intro _
  apply judged_after (kept_parse_case_operand around level)
  intro operand
  apply judged_after (kept_expect_contextual_keyword _)
  intro _
  exact judged_parse_branched around level hkept hstatement
    (fun _ _ _ => by rw [Statement.inner_checks]) (fun _ _ _ => rfl)

theorem judged_parse_compound_statement (label : Option Ident) :
    Judged tests (fun tests => parse_compound_statement around tests level (statement tests) label)
      Statement.inner_checks := by
  apply judged_after (kept_expect_contextual_keyword _)
  intro _
  apply judged_bind (fun _ labels statement => statement.block_checks labels)
    ( judged_parse_declaration_prefix around level hkept hstatement)
    ( kept_parse_declaration_prefix around level hkept)
  · intro declarations
    apply judged_bind (fun _ _ statement => statement.end_checks)
      (judged_parse_block_body hkept hstatement _) (kept_parse_block_body hkept _)
    · intro body
      apply judged_after (kept_expect_contextual_keyword _)
      intro _
      exact judged_end_label around fun _ => rfl
    · intro body
      apply yields_bind
      intro _
      exact yields_end_label around fun _ _ => rfl
  · intro declarations
    apply yields_bind
    intro body
    apply yields_bind
    intro _
    refine yields_end_label around ?_
    intro end_label labels
    rw [Statement.inner_checks]
    rfl

theorem judged_parse_loop_statement (label : Option Ident) :
    Judged tests (fun tests => parse_loop_statement around tests (statement tests) label)
      Statement.inner_checks := by
  apply judged_after (kept_expect_contextual_keyword _)
  intro _
  apply judged_bind (fun _ _ statement => statement.end_checks)
    (judged_parse_block_body hkept hstatement _) (kept_parse_block_body hkept _)
  · intro body
    apply judged_after (kept_expect_contextual_keyword _)
    intro _
    apply judged_after (kept_expect_contextual_keyword _)
    intro _
    exact judged_end_label around fun _ => rfl
  · intro body
    apply yields_bind
    intro _
    apply yields_bind
    intro _
    refine yields_end_label around ?_
    intro end_label labels
    rw [Statement.inner_checks]
    rfl

theorem judged_parse_while_statement (label : Option Ident) :
    Judged tests (fun tests => parse_while_statement around tests level (statement tests) label)
      Statement.inner_checks := by
  apply judged_after (kept_expect_contextual_keyword _)
  intro _
  apply judged_after (kept_parse_part _)
  intro condition
  apply judged_after (kept_expect_contextual_keyword _)
  intro _
  apply judged_bind (fun _ _ statement => statement.end_checks)
    (judged_parse_block_body hkept hstatement _) (kept_parse_block_body hkept _)
  · intro body
    apply judged_after (kept_expect_contextual_keyword _)
    intro _
    apply judged_after (kept_expect_contextual_keyword _)
    intro _
    exact judged_end_label around fun _ => rfl
  · intro body
    apply yields_bind
    intro _
    apply yields_bind
    intro _
    refine yields_end_label around ?_
    intro end_label labels
    rw [Statement.inner_checks]
    rfl

theorem judged_parse_repeat_statement (label : Option Ident) :
    Judged tests (fun tests => parse_repeat_statement around tests level (statement tests) label)
      Statement.inner_checks := by
  apply judged_after (kept_expect_contextual_keyword _)
  intro _
  apply judged_bind (fun _ _ statement => statement.end_checks)
    (judged_parse_block_body hkept hstatement _) (kept_parse_block_body hkept _)
  · intro body
    apply judged_after (kept_expect_contextual_keyword _)
    intro _
    apply judged_after (kept_parse_part _)
    intro condition
    apply judged_after (kept_expect_contextual_keyword _)
    intro _
    apply judged_after (kept_expect_contextual_keyword _)
    intro _
    exact judged_end_label around fun _ => rfl
  · intro body
    apply yields_bind
    intro _
    apply yields_bind
    intro condition
    apply yields_bind
    intro _
    apply yields_bind
    intro _
    refine yields_end_label around ?_
    intro end_label labels
    rw [Statement.inner_checks]
    rfl

theorem judged_dispatch_unlabelled_construct :
    Judged tests
      (fun tests => dispatch_unlabelled_construct around tests level (statement tests))
      Statement.inner_checks := by
  apply judged_after (kept_peek_is_contextual_keyword _)
  intro found
  apply judged_ite
  · exact judged_parse_if_statement around level hkept hstatement
  apply judged_after (kept_peek_is_contextual_keyword _)
  intro found
  apply judged_ite
  · exact judged_parse_case_statement around level hkept hstatement
  apply judged_after (kept_peek_is_contextual_keyword _)
  intro found
  apply judged_ite
  · exact judged_parse_leave_statement around
  apply judged_after (kept_peek_is_contextual_keyword _)
  intro found
  apply judged_ite
  · exact judged_parse_iterate_statement around
  apply judged_none
  exact yields_untested_construct (fun _ _ => rfl) (fun _ _ => rfl) (fun _ _ _ _ _ => rfl)
    fun _ _ => rfl

theorem judged_dispatch_body_construct (label : Option Ident) :
    Judged tests (fun tests => dispatch_body_construct around tests level (statement tests) label)
      Statement.inner_checks := by
  apply judged_after (kept_peek_is_contextual_keyword _)
  intro found
  apply judged_ite
  · exact judged_parse_compound_statement around level hkept hstatement label
  apply judged_after (kept_peek_is_contextual_keyword _)
  intro found
  apply judged_ite
  · exact judged_parse_loop_statement around hkept hstatement label
  apply judged_after (kept_peek_is_contextual_keyword _)
  intro found
  apply judged_ite
  · exact judged_parse_while_statement around level hkept hstatement label
  apply judged_after (kept_peek_is_contextual_keyword _)
  intro found
  apply judged_ite
  · exact judged_parse_repeat_statement around level hkept hstatement label
  apply judged_ite
  · exact judged_none yields_throw
  · exact judged_dispatch_unlabelled_construct around level hkept hstatement

end

/-! ## The frame of a construct -/

theorem judged_with_label {α : Type} {tests : Check → Bool}
    {method : (Check → Bool) → ParseResult α} {checks : List LabelFrame → α → List Check}
    (hmethod : Judged tests method checks) (label : Option LabelFrame) :
    Judged tests (fun tests => with_label label (method tests))
      fun labels a => checks (labels ++ label.toList) a := by
  intro s a t
  let pushed : State :=
    { s with labels := s.labels ++ label.toList, opened := s.opened ++ [label] }
  have hrun (tests : Check → Bool) : with_label label (method tests) s = .ok a t ↔
      ∃ u, method tests pushed = .ok a u ∧
        (do pop_label label; return a : ParseResult α) u = .ok a t := by
    cases hresult : method tests pushed with
    | ok b u =>
      rw [with_label_of_ok hresult]
      constructor
      · intro h
        have hb : b = a := by
          obtain ⟨_, v, _, hpure⟩ := bind_eq_ok_iff.mp h
          exact (pure_eq_ok_iff.mp hpure).1
        subst hb
        exact ⟨u, rfl, h⟩
      · rintro ⟨v, hv, h⟩
        obtain ⟨rfl, rfl⟩ := EStateM.Result.ok.inj hv
        exact h
    | error error u =>
      rw [with_label_of_error hresult]
      constructor
      · intro h
        obtain ⟨_, v, _, hthrow⟩ := bind_eq_ok_iff.mp h
        exact (throw_ne_ok.mp hthrow).elim
      · rintro ⟨v, hv, _⟩
        cases hv
  rw [hrun, hrun]
  constructor
  · rintro ⟨u, hok, hpop⟩
    obtain ⟨hok, hall⟩ := (hmethod pushed a u).mp hok
    exact ⟨⟨u, hok, hpop⟩, hall⟩
  · rintro ⟨⟨u, hok, hpop⟩, hall⟩
    exact ⟨u, (hmethod pushed a u).mpr ⟨hok, hall⟩, hpop⟩

theorem with_label_ok {α : Type} {label : Option LabelFrame} {method : ParseResult α}
    {s t : State} {a : α} (h : with_label label method s = .ok a t) :
    ∃ pushed u, pushed.tokens = s.tokens ∧ method pushed = .ok a u := by
  let pushed : State :=
    { s with labels := s.labels ++ label.toList, opened := s.opened ++ [label] }
  cases hmethod : method pushed with
  | ok b u =>
    rw [with_label_of_ok hmethod] at h
    obtain ⟨_, v, _, hpure⟩ := bind_eq_ok_iff.mp h
    rw [← (pure_eq_ok_iff.mp hpure).1]
    exact ⟨pushed, u, rfl, hmethod⟩
  | error error u =>
    rw [with_label_of_error hmethod] at h
    obtain ⟨_, v, _, hthrow⟩ := bind_eq_ok_iff.mp h
    exact (throw_ne_ok.mp hthrow).elim

/-- Whether the word ahead opens a block. -/
def begins (tokens : Stream) : Bool :=
  (tokens[0]?.join).any (token_is_contextual_keyword · "BEGIN")

theorem peek_begin_ok {s t : State} {found : Bool}
    (h : peek_is_contextual_keyword "BEGIN" s = .ok found t) : begins s.tokens = found ∧ s = t := by
  rw [peek_is_contextual_keyword, bind_eq_ok_iff] at h
  obtain ⟨token, u, htoken, h⟩ := h
  obtain ⟨rfl, rfl⟩ := peek_nth_eq_ok htoken
  exact pure_eq_ok_iff.mp h

/-- The kind that a label gets from the word behind it. -/
def kind_ahead (tokens : Stream) : LabelKind := if begins tokens then .Block else .Loop

section
variable {around : Around} {level : Nat} {statement : ParseResult Statement}
  {label : Option Ident}

/-- What a label may not stand before has no frame. -/
theorem yields_dispatch_unlabelled_construct :
    Yields (dispatch_unlabelled_construct around untested level statement)
      fun tree => tree.frame = none := by
  apply yields_bind
  intro found
  apply yields_ite
  · exact yields_parse_if_statement fun _ _ => rfl
  apply yields_bind
  intro found
  apply yields_ite
  · exact yields_parse_case_statement fun _ _ _ => rfl
  apply yields_bind
  intro found
  apply yields_ite
  · exact yields_parse_leave_statement fun _ => rfl
  apply yields_bind
  intro found
  apply yields_ite
  · exact yields_parse_iterate_statement fun _ => rfl
  exact yields_untested_construct (fun _ => rfl) (fun _ => rfl) (fun _ _ _ _ => rfl) fun _ => rfl

/-- The label of a construct stands on a block where `BEGIN` is ahead and else on a loop. -/
theorem dispatch_body_construct_frame {s t : State} {tree : Statement}
    (h : dispatch_body_construct around untested level statement label s = .ok tree t) :
    tree.frame = label.map (⟨·, kind_ahead s.tokens⟩) := by
  rw [dispatch_body_construct, bind_eq_ok_iff] at h
  obtain ⟨found, u, hfound, h⟩ := h
  obtain ⟨rfl, rfl⟩ := peek_begin_ok hfound
  rw [kind_ahead]
  by_cases hbegin : begins s.tokens = true
  · rw [if_pos hbegin] at h ⊢
    have hblock : Yields (parse_compound_statement around untested level statement label)
        fun tree => tree.frame = label.map (⟨·, .Block⟩) :=
      yields_parse_compound_statement fun _ _ _ => rfl
    exact hblock _ _ _ h
  · rw [if_neg hbegin] at h ⊢
    have hloop : Yields (do
        if ← peek_is_contextual_keyword "LOOP" then
          parse_loop_statement around untested statement label
        else if ← peek_is_contextual_keyword "WHILE" then
          parse_while_statement around untested level statement label
        else if ← peek_is_contextual_keyword "REPEAT" then
          parse_repeat_statement around untested level statement label
        else if label.isSome then
          unexpected "`BEGIN`, `LOOP`, `WHILE`, or `REPEAT` after a label"
        else
          dispatch_unlabelled_construct around untested level statement)
        fun tree => tree.frame = label.map (⟨·, .Loop⟩) := by
      apply yields_bind
      intro found
      apply yields_ite
      · exact yields_parse_loop_statement fun _ _ => rfl
      apply yields_bind
      intro found
      apply yields_ite
      · exact yields_parse_while_statement fun _ _ _ => rfl
      apply yields_bind
      intro found
      apply yields_ite
      · exact yields_parse_repeat_statement fun _ _ _ => rfl
      cases label with
      | some label => exact yields_throw
      | none => exact yields_dispatch_unlabelled_construct
    exact hloop _ _ _ h

theorem parse_label_frame_ok {label : Ident} {frame : LabelFrame} {s t : State}
    (h : parse_label_frame untested label s = .ok frame t) :
    frame = ⟨label, kind_ahead s.tokens⟩ ∧ s = t := by
  rw [parse_label_frame, bind_eq_ok_iff] at h
  obtain ⟨u, v, hget, h⟩ := h
  obtain ⟨rfl, rfl⟩ := get_eq_ok_iff.mp hget
  rw [test_eq_ok_iff, bind_eq_ok_iff] at h
  obtain ⟨_, found, u, hfound, h⟩ := h
  obtain ⟨rfl, rfl⟩ := peek_begin_ok hfound
  rw [kind_ahead]
  by_cases hbegin : begins s.tokens = true
  · rw [if_pos hbegin] at h ⊢
    obtain ⟨rfl, rfl⟩ := pure_eq_ok_iff.mp h
    exact ⟨rfl, rfl⟩
  · rw [if_neg hbegin] at h ⊢
    obtain ⟨rfl, rfl⟩ := pure_eq_ok_iff.mp h
    exact ⟨rfl, rfl⟩

end

/-! ## Body statements -/

section
variable (around : Around) {tests : Check → Bool}

theorem judged_parse_body_construct (level : Nat)
    {statement : (Check → Bool) → ParseResult Statement} (hkept : Kept (statement untested))
    (hstatement : Judged tests statement Statement.checks) :
    Judged tests (fun tests => parse_body_construct around tests level (statement tests))
      Statement.checks := by
  apply judged_after (kept_parse_open_label around)
  intro label
  have hdispatch (frame : Option LabelFrame) :=
    judged_with_label (judged_dispatch_body_construct around level hkept hstatement label) frame
  cases label with
  | none =>
    intro s tree t
    have hchecks (h : with_label none
        (dispatch_body_construct around untested level (statement untested) none) s = .ok tree t) :
        tree.checks s.labels = tree.inner_checks (s.labels ++ []) := by
      obtain ⟨pushed, u, _, hrun⟩ := with_label_ok h
      rw [Statement.checks, dispatch_body_construct_frame hrun]
      rfl
    constructor
    · intro h
      obtain ⟨hok, hall⟩ := (hdispatch none s tree t).mp h
      refine ⟨hok, ?_⟩
      rw [hchecks hok]
      exact hall
    · rintro ⟨hok, hall⟩
      rw [hchecks hok] at hall
      exact (hdispatch none s tree t).mpr ⟨hok, hall⟩
  | some label =>
    intro s tree t
    have hchecks {frame : LabelFrame} {u : State}
        (hframe : parse_label_frame untested label s = .ok frame u)
        (h : with_label (some frame)
          (dispatch_body_construct around untested level (statement untested) (some label)) u =
            .ok tree t) :
        tree.checks s.labels =
          fresh_checks s.labels (some frame) ++ tree.inner_checks (u.labels ++ [frame]) := by
      obtain ⟨pushed, v, htokens, hrun⟩ := with_label_ok h
      obtain ⟨rfl, rfl⟩ := parse_label_frame_ok hframe
      rw [Statement.checks, dispatch_body_construct_frame hrun, htokens]
      rfl
    show (parse_label_frame tests label >>= _) s = .ok tree t ↔
      (parse_label_frame untested label >>= _) s = .ok tree t ∧ _
    rw [bind_eq_ok_iff, bind_eq_ok_iff]
    constructor
    · rintro ⟨frame, u, hframe, h⟩
      obtain ⟨hframe, hfresh⟩ := (judged_parse_label_frame label s frame u).mp hframe
      obtain ⟨h, hinner⟩ := (hdispatch (some frame) u tree t).mp h
      refine ⟨⟨frame, u, hframe, h⟩, ?_⟩
      rw [hchecks hframe h]
      intro check hmem
      rw [List.mem_append] at hmem
      obtain hmem | hmem := hmem
      · exact hfresh check hmem
      · exact hinner check hmem
    · rintro ⟨⟨frame, u, hframe, h⟩, hall⟩
      rw [hchecks hframe h] at hall
      refine ⟨frame, u, (judged_parse_label_frame label s frame u).mpr ⟨hframe, ?_⟩,
        (hdispatch (some frame) u tree t).mpr ⟨h, ?_⟩⟩
      · intro check hmem
        exact hall check (List.mem_append_left _ hmem)
      · intro check hmem
        exact hall check (List.mem_append_right _ hmem)

theorem judged_body_statement (level : Nat)
    {construct : (Check → Bool) → ParseResult Statement}
    (hconstruct : Judged tests construct Statement.checks) :
    Judged tests (fun tests => body_statement around level (construct tests))
      Statement.checks := by
  apply judged_ite
  · exact judged_none yields_throw
  · apply judged_after kept_peek_starts_body_construct
    intro found
    apply judged_ite
    · exact hconstruct
    · apply judged_none
      apply yields_bind
      intro statement
      exact yields_pure fun _ => rfl

/-- A body statement is read with its label tests where it is read without them and all checks
of its tree pass, and then to the same tree. -/
theorem judged_parse_body_statement_scoped (level : Nat) :
    Judged tests (fun tests => parse_body_statement_scoped around tests level)
      Statement.checks := by
  induction level with
  | zero => exact judged_body_statement around 0 (judged_none yields_throw)
  | succ level ih =>
    exact judged_body_statement around (level + 1) (judged_parse_body_construct around level
      (kept_parse_body_statement_scoped around untested level) ih)

end

end squonk.parser.body
