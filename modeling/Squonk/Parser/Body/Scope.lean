import Squonk.Parser.Body

/-!
# The label stack

Every method gives the label stack back as it found it, whether it fails or not, and at each token
the stack is the list of the labels of the constructs that are open.
-/

open squonk.tokenizer squonk.tokenizer.scan

namespace squonk.parser.body

variable {α β : Type}

/-- The labels of the open constructs, outermost first. -/
def open_labels (opened : List (Option LabelFrame)) : List LabelFrame := opened.reduceOption

/-- The stack holds the labels of the open constructs, and did at each token so far. -/
structure State.Aligned (s : State) : Prop where
  labels : s.labels = open_labels s.opened
  visited : ∀ opened labels, (opened, labels) ∈ s.visited → labels = open_labels opened

/-- The state in which a method stops. -/
def stopped : EStateM.Result ParseError State α → State
  | .ok _ t => t
  | .error _ t => t

/-- The state `t` may be left by a method that was started in `s`. -/
structure Keeps (s t : State) : Prop where
  labels : t.labels = s.labels
  opened : t.opened = s.opened
  tokens : t.tokens.length ≤ s.tokens.length
  aligned : s.Aligned → t.Aligned

def Kept (method : ParseResult α) : Prop := ∀ s, Keeps s (stopped (method s))

theorem Keeps.refl (s : State) : Keeps s s := ⟨rfl, rfl, le_refl _, fun h => h⟩

theorem Keeps.trans {s t u : State} (hst : Keeps s t) (htu : Keeps t u) : Keeps s u where
  labels := htu.labels.trans hst.labels
  opened := htu.opened.trans hst.opened
  tokens := htu.tokens.trans hst.tokens
  aligned := fun h => htu.aligned (hst.aligned h)

theorem Kept.ok {method : ParseResult α} (h : Kept method) {s t : State} {a : α}
    (hok : method s = .ok a t) : Keeps s t := by
  have hs := h s
  rw [hok] at hs
  exact hs

/-! ## Sequences and branches -/

theorem bind_eq_ok_iff {method : ParseResult α} {next : α → ParseResult β} {s t : State} {b : β} :
    (method >>= next) s = .ok b t ↔ ∃ a u, method s = .ok a u ∧ next a u = .ok b t := by
  show EStateM.bind method next s = .ok b t ↔ _
  unfold EStateM.bind
  cases method s with
  | ok a u => exact ⟨fun h => ⟨a, u, rfl, h⟩, fun ⟨_, _, hx, hf⟩ => by cases hx; exact hf⟩
  | error error u => simp

theorem pure_eq_ok_iff {a b : α} {s t : State} :
    (pure a : ParseResult α) s = .ok b t ↔ a = b ∧ s = t := by
  show EStateM.pure a s = .ok b t ↔ _
  simp [EStateM.pure]

theorem throw_ne_ok {error : ParseError} {b : α} {s t : State} :
    (throw error : ParseResult α) s = .ok b t ↔ False := by
  show EStateM.Result.error error s = .ok b t ↔ _
  simp

theorem get_eq_ok_iff {s t u : State} : (get : ParseResult State) s = .ok u t ↔ s = u ∧ s = t := by
  show EStateM.Result.ok s s = .ok u t ↔ _
  simp

theorem kept_bind {method : ParseResult α} {next : α → ParseResult β} (hmethod : Kept method)
    (hnext : ∀ a, Kept (next a)) : Kept (method >>= next) := by
  intro s
  have hs := hmethod s
  show Keeps s (stopped (EStateM.bind method next s))
  unfold EStateM.bind
  cases hrun : method s with
  | ok a t =>
    rw [hrun] at hs
    exact hs.trans (hnext a t)
  | error error t =>
    rw [hrun] at hs
    exact hs

theorem kept_pure (a : α) : Kept (pure a : ParseResult α) := fun s => Keeps.refl s

theorem kept_throw (error : ParseError) : Kept (throw error : ParseResult α) :=
  fun s => Keeps.refl s

theorem kept_get : Kept (get : ParseResult State) := fun s => Keeps.refl s

theorem kept_ite {p : Prop} [Decidable p] {yes no : ParseResult α} (hyes : Kept yes)
    (hno : Kept no) : Kept (if p then yes else no) := by
  by_cases hp : p
  · rw [if_pos hp]
    exact hyes
  · rw [if_neg hp]
    exact hno

/-! ## Tokens -/

theorem kept_take (n : Nat) : Kept (take n) := by
  intro s
  refine ⟨rfl, rfl, ?_, ?_⟩
  · show (s.tokens.drop n).length ≤ s.tokens.length
    rw [List.length_drop]
    omega
  · intro h
    refine ⟨h.labels, ?_⟩
    intro opened labels hmem
    have hmem : (opened, labels) ∈ s.visited ++ [(s.opened, s.labels)] := hmem
    rw [List.mem_append, List.mem_singleton] at hmem
    obtain hold | hnew := hmem
    · exact h.visited opened labels hold
    · obtain ⟨rfl, rfl⟩ := Prod.mk.inj hnew
      exact h.labels

theorem kept_unexpected (expected : String) : Kept (unexpected expected : ParseResult α) :=
  kept_throw _

theorem kept_error_at (expected : String) (found : List Char) :
    Kept (error_at expected found : ParseResult α) := kept_throw _

theorem kept_peek_nth (n : Nat) : Kept (peek_nth n) := by
  apply kept_bind kept_get
  intro s
  apply kept_ite
  · exact kept_throw _
  · exact kept_pure _

theorem kept_peek : Kept peek := kept_peek_nth 0

theorem kept_current_text : Kept current_text := by
  apply kept_bind kept_peek
  intro token
  exact kept_pure _

theorem kept_peek_is_contextual_keyword (expected : String) :
    Kept (peek_is_contextual_keyword expected) := by
  apply kept_bind kept_peek
  intro token
  exact kept_pure _

theorem kept_eat_contextual_keyword (expected : String) :
    Kept (eat_contextual_keyword expected) := by
  apply kept_bind (kept_peek_is_contextual_keyword expected)
  intro found
  apply kept_ite
  · exact kept_bind (kept_take 1) fun _ => kept_pure _
  · exact kept_pure _

theorem kept_expect_contextual_keyword (expected : String) :
    Kept (expect_contextual_keyword expected) := by
  apply kept_bind (kept_eat_contextual_keyword expected)
  intro found
  apply kept_ite
  · exact kept_unexpected _
  · exact kept_pure _

theorem kept_peek_nth_is_punct (n : Nat) (punct : Punctuation) :
    Kept (peek_nth_is_punct n punct) := by
  apply kept_bind (kept_peek_nth n)
  intro token
  exact kept_pure _

theorem kept_eat_punct (punct : Punctuation) : Kept (eat_punct punct) := by
  apply kept_bind (kept_peek_nth_is_punct 0 punct)
  intro found
  apply kept_ite
  · exact kept_bind (kept_take 1) fun _ => kept_pure _
  · exact kept_pure _

theorem kept_expect_punct (punct : Punctuation) (expected : String) :
    Kept (expect_punct punct expected) := by
  apply kept_bind (kept_eat_punct punct)
  intro found
  apply kept_ite
  · exact kept_unexpected _
  · exact kept_pure _

theorem kept_peek_is_any_contextual_keyword (words : List String) :
    Kept (peek_is_any_contextual_keyword words) := by
  induction words with
  | nil => exact kept_pure _
  | cons word words ih =>
    apply kept_bind (kept_peek_is_contextual_keyword word)
    intro found
    apply kept_ite
    · exact kept_pure _
    · exact ih

theorem kept_parse_part (grammar : Stream → Except ParseError Nat) : Kept (parse_part grammar) := by
  apply kept_bind kept_get
  intro s
  dsimp only
  cases grammar s.tokens with
  | ok n => exact kept_bind (kept_take n) fun _ => kept_pure _
  | error error => exact kept_throw _

theorem kept_rounds {σ : Type} {round : σ → ParseResult (Option (α × σ))}
    (hround : ∀ carried, Kept (round carried)) (n : Nat) (carried : σ) :
    Kept (rounds round n carried) := by
  induction n generalizing carried with
  | zero => exact kept_pure _
  | succ n ih =>
    apply kept_bind (hround carried)
    intro step
    cases step with
    | none => exact kept_pure _
    | some step => exact kept_bind (ih step.2) fun _ => kept_pure _

theorem kept_repeat_rounds {σ : Type} {round : σ → ParseResult (Option (α × σ))}
    (hround : ∀ carried, Kept (round carried)) (carried : σ) :
    Kept (repeat_rounds round carried) :=
  kept_bind kept_get fun s => kept_rounds hround s.tokens.length carried

theorem kept_comma_round {item : ParseResult α} (hitem : Kept item) (carried : Unit) :
    Kept (comma_round item carried) := by
  apply kept_bind (kept_eat_punct _)
  intro found
  apply kept_ite
  · exact kept_bind hitem fun _ => kept_pure _
  · exact kept_pure _

theorem kept_parse_comma_separated {item : ParseResult α} (hitem : Kept item) :
    Kept (parse_comma_separated item) := by
  apply kept_bind hitem
  intro head
  apply kept_bind (kept_repeat_rounds (kept_comma_round hitem) ())
  intro tail
  exact kept_pure _

/-! ## Constructs -/

theorem with_label_of_ok {label : Option LabelFrame} {method : ParseResult α} {s t : State} {a : α}
    (h : method { s with labels := s.labels ++ label.toList, opened := s.opened ++ [label] } =
      .ok a t) :
    with_label label method s = (do pop_label label; return a : ParseResult α) t := by
  unfold with_label push_label
  simp only [bind, EStateM.bind, modify, modifyGet, MonadStateOf.modifyGet, EStateM.modifyGet, h]

theorem with_label_of_error {label : Option LabelFrame} {method : ParseResult α} {s t : State}
    {error : ParseError}
    (h : method { s with labels := s.labels ++ label.toList, opened := s.opened ++ [label] } =
      .error error t) :
    with_label label method s = (do pop_label label; throw error : ParseResult α) t := by
  unfold with_label push_label
  simp only [bind, EStateM.bind, modify, modifyGet, MonadStateOf.modifyGet, EStateM.modifyGet, h]

/-- What is pushed is popped, behind a value and behind an error. -/
theorem kept_with_label (label : Option LabelFrame) {method : ParseResult α}
    (hmethod : Kept method) : Kept (with_label label method) := by
  intro s
  let pushed : State :=
    { s with labels := s.labels ++ label.toList, opened := s.opened ++ [label] }
  have hpushed : s.Aligned → pushed.Aligned := by
    intro h
    refine ⟨?_, h.visited⟩
    show s.labels ++ label.toList = open_labels (s.opened ++ [label])
    rw [h.labels, open_labels, open_labels, List.reduceOption, List.filterMap_append]
    cases label <;> rfl
  have hpopped : ∀ t, Keeps pushed t → Keeps s
      { t with
        labels := if label.isSome then t.labels.dropLast else t.labels
        opened := t.opened.dropLast } := by
    intro t ht
    have hlabels : (if label.isSome then t.labels.dropLast else t.labels) = s.labels := by
      rw [ht.labels]
      cases label with
      | none => exact List.append_nil _
      | some frame => exact List.dropLast_concat
    have hopened : t.opened.dropLast = s.opened := by
      rw [ht.opened]
      exact List.dropLast_concat
    refine ⟨hlabels, hopened, ht.tokens, ?_⟩
    intro h
    refine ⟨?_, (ht.aligned (hpushed h)).visited⟩
    show (if label.isSome then t.labels.dropLast else t.labels) = open_labels t.opened.dropLast
    rw [hlabels, hopened]
    exact h.labels
  have hrun := hmethod pushed
  cases hresult : method pushed with
  | ok a t =>
    rw [hresult] at hrun
    rw [with_label_of_ok hresult]
    exact hpopped t hrun
  | error error t =>
    rw [hresult] at hrun
    rw [with_label_of_error hresult]
    exact hpopped t hrun

section
variable (around : Around)

theorem kept_parse_ident : Kept (parse_ident around) := by
  apply kept_bind kept_peek
  intro token
  cases token with
  | none => exact kept_unexpected _
  | some token =>
    apply kept_ite
    · apply kept_ite
      · apply kept_ite
        · apply kept_bind kept_get
          intro s
          cases around.unicode_ident s.tokens with
          | ok read => exact kept_bind (kept_take read.2) fun _ => kept_pure _
          | error error => exact kept_throw _
        · exact kept_bind (kept_take 1) fun _ => kept_pure _
      · exact kept_bind (kept_take 1) fun _ => kept_pure _
    · exact kept_unexpected _

theorem kept_parse_optional_end_label : Kept (parse_optional_end_label around) := by
  apply kept_bind kept_peek
  intro token
  apply kept_ite
  · exact kept_bind (kept_parse_ident around) fun _ => kept_pure _
  · exact kept_pure _

theorem kept_parse_open_label : Kept (parse_open_label around) := by
  apply kept_bind (kept_peek_nth_is_punct 1 _)
  intro found
  apply kept_ite
  · apply kept_bind (kept_parse_ident around)
    intro label
    exact kept_bind (kept_expect_punct _ _) fun _ => kept_pure _
  · exact kept_pure _

theorem kept_peek_starts_body_construct : Kept peek_starts_body_construct := by
  apply kept_bind (kept_peek_nth_is_punct 1 _)
  intro found
  apply kept_ite
  · exact kept_pure _
  · exact kept_peek_is_any_contextual_keyword _

variable (tests : Check → Bool)

theorem kept_check_label_match (open_label close : Option Ident) :
    Kept (check_label_match tests open_label close) := by
  apply kept_ite
  · exact kept_error_at _ _
  · exact kept_pure _

/-- The end of a block or a loop, from its end label on. -/
theorem kept_end_label {tree : Option Ident → Statement} (label : Option Ident) :
    Kept (do
      let end_label ← parse_optional_end_label around
      check_label_match tests label end_label
      return tree end_label) := by
  apply kept_bind (kept_parse_optional_end_label around)
  intro end_label
  exact kept_bind (kept_check_label_match tests _ _) fun _ => kept_pure _

theorem kept_parse_label_frame (label : Ident) : Kept (parse_label_frame tests label) := by
  apply kept_bind kept_get
  intro s
  apply kept_ite
  · exact kept_error_at _ _
  · apply kept_bind (kept_peek_is_contextual_keyword _)
    intro found
    apply kept_ite
    · exact kept_pure _
    · exact kept_pure _

theorem kept_parse_leave_statement : Kept (parse_leave_statement around tests) := by
  apply kept_bind (kept_expect_contextual_keyword _)
  intro _
  apply kept_bind (kept_parse_ident around)
  intro label
  apply kept_bind kept_get
  intro s
  apply kept_ite
  · exact kept_error_at _ _
  · exact kept_pure _

theorem kept_parse_iterate_statement : Kept (parse_iterate_statement around tests) := by
  apply kept_bind (kept_expect_contextual_keyword _)
  intro _
  apply kept_bind (kept_parse_ident around)
  intro label
  apply kept_bind kept_get
  intro s
  apply kept_ite
  · exact kept_error_at _ _
  · exact kept_pure _

theorem kept_parse_open_cursor_statement : Kept (parse_open_cursor_statement around) := by
  apply kept_bind (kept_expect_contextual_keyword _)
  intro _
  exact kept_bind (kept_parse_ident around) fun _ => kept_pure _

theorem kept_parse_close_cursor_statement : Kept (parse_close_cursor_statement around) := by
  apply kept_bind (kept_expect_contextual_keyword _)
  intro _
  exact kept_bind (kept_parse_ident around) fun _ => kept_pure _

theorem kept_parse_fetch_cursor_statement : Kept (parse_fetch_cursor_statement around) := by
  apply kept_bind (kept_expect_contextual_keyword _)
  intro _
  apply kept_bind (kept_eat_contextual_keyword _)
  intro next_keyword
  apply kept_bind (kept_eat_contextual_keyword _)
  intro from_keyword
  apply kept_ite
  · exact kept_unexpected _
  · apply kept_bind (kept_parse_ident around)
    intro cursor
    apply kept_bind (kept_expect_contextual_keyword _)
    intro _
    exact kept_bind (kept_parse_comma_separated (kept_parse_ident around)) fun _ => kept_pure _

variable (level : Nat)

theorem kept_parse_condition_value : Kept (parse_condition_value around level) := by
  apply kept_bind (kept_eat_contextual_keyword _)
  intro found
  apply kept_ite
  · apply kept_bind (kept_eat_contextual_keyword _)
    intro value_keyword
    exact kept_bind (kept_parse_part _) fun _ => kept_pure _
  · exact kept_bind (kept_parse_part _) fun _ => kept_pure _

theorem kept_parse_handler_condition : Kept (parse_handler_condition around level) := by
  apply kept_bind (kept_eat_contextual_keyword _)
  intro found
  apply kept_ite
  · apply kept_bind (kept_eat_contextual_keyword _)
    intro value_keyword
    exact kept_bind (kept_parse_part _) fun _ => kept_pure _
  apply kept_bind (kept_eat_contextual_keyword _)
  intro found
  apply kept_ite
  · exact kept_pure _
  apply kept_bind (kept_eat_contextual_keyword _)
  intro found
  apply kept_ite
  · exact kept_pure _
  apply kept_bind (kept_eat_contextual_keyword _)
  intro found
  apply kept_ite
  · exact kept_bind (kept_expect_contextual_keyword _) fun _ => kept_pure _
  apply kept_bind kept_peek
  intro token
  apply kept_ite
  · exact kept_bind (kept_parse_part _) fun _ => kept_pure _
  · exact kept_bind (kept_parse_ident around) fun _ => kept_pure _

theorem kept_parse_handler_action : Kept parse_handler_action := by
  apply kept_bind (kept_eat_contextual_keyword _)
  intro found
  apply kept_ite
  · exact kept_pure _
  apply kept_bind (kept_eat_contextual_keyword _)
  intro found
  apply kept_ite
  · exact kept_pure _
  · exact kept_bind (kept_expect_contextual_keyword _) fun _ => kept_pure _

theorem kept_parse_default : Kept (parse_default around level) := by
  apply kept_bind (kept_eat_contextual_keyword _)
  intro found
  apply kept_ite
  · exact kept_bind (kept_parse_part _) fun _ => kept_pure _
  · exact kept_pure _

theorem kept_parse_variable_declaration (first : Ident) :
    Kept (parse_variable_declaration around level first) := by
  apply kept_bind (kept_repeat_rounds (kept_comma_round (kept_parse_ident around)) ())
  intro names
  apply kept_bind (kept_parse_part _)
  intro data_type
  exact kept_bind (kept_parse_default around level) fun _ => kept_pure _

theorem kept_parse_named_declaration : Kept (parse_named_declaration around level) := by
  apply kept_bind (kept_parse_ident around)
  intro first
  apply kept_bind (kept_eat_contextual_keyword _)
  intro found
  apply kept_ite
  · apply kept_bind (kept_expect_contextual_keyword _)
    intro _
    exact kept_bind (kept_parse_condition_value around level) fun _ => kept_pure _
  apply kept_bind (kept_eat_contextual_keyword _)
  intro found
  apply kept_ite
  · apply kept_bind (kept_expect_contextual_keyword _)
    intro _
    exact kept_bind (kept_parse_part _) fun _ => kept_pure _
  · exact kept_parse_variable_declaration around level first

theorem kept_parse_return_statement : Kept (parse_return_statement around level) := by
  apply kept_bind kept_current_text
  intro found
  apply kept_bind (kept_expect_contextual_keyword _)
  intro _
  apply kept_ite
  · exact kept_error_at _ _
  · exact kept_bind (kept_parse_part _) fun _ => kept_pure _

theorem kept_parse_case_operand : Kept (parse_case_operand around level) := by
  apply kept_bind (kept_peek_is_contextual_keyword _)
  intro found
  apply kept_ite
  · exact kept_pure _
  · exact kept_bind (kept_parse_part _) fun _ => kept_pure _

section
variable {statement : ParseResult Statement} (hstatement : Kept statement)
include hstatement

theorem kept_block_round (terminators : List String) (carried : Unit) :
    Kept (block_round statement terminators carried) := by
  apply kept_bind kept_peek
  intro token
  apply kept_bind (kept_peek_is_any_contextual_keyword _)
  intro found
  apply kept_ite
  · apply kept_bind hstatement
    intro head
    exact kept_bind (kept_expect_punct _ _) fun _ => kept_pure _
  · exact kept_pure _

theorem kept_parse_block_body (terminators : List String) :
    Kept (parse_block_body statement terminators) :=
  kept_repeat_rounds (kept_block_round hstatement terminators) ()

theorem kept_parse_handler_declaration :
    Kept (parse_handler_declaration around level statement) := by
  apply kept_bind kept_parse_handler_action
  intro action
  apply kept_bind (kept_expect_contextual_keyword _)
  intro _
  apply kept_bind (kept_expect_contextual_keyword _)
  intro _
  apply kept_bind (kept_parse_comma_separated (kept_parse_handler_condition around level))
  intro conditions
  exact kept_bind hstatement fun _ => kept_pure _

theorem kept_parse_declaration : Kept (parse_declaration around level statement) := by
  apply kept_bind (kept_expect_contextual_keyword _)
  intro _
  apply kept_bind (kept_peek_is_any_contextual_keyword _)
  intro found
  apply kept_ite
  · exact kept_parse_handler_declaration around level hstatement
  · exact kept_parse_named_declaration around level

theorem kept_declaration_round (max_phase : Nat) :
    Kept (declaration_round around level statement max_phase) := by
  apply kept_bind (kept_peek_is_contextual_keyword _)
  intro found
  apply kept_ite
  · apply kept_bind kept_current_text
    intro text
    apply kept_bind (kept_parse_declaration around level hstatement)
    intro declaration
    apply kept_ite
    · apply kept_ite
      · exact kept_error_at _ _
      · exact kept_error_at _ _
    · exact kept_bind (kept_expect_punct _ _) fun _ => kept_pure _
  · exact kept_pure _

theorem kept_parse_declaration_prefix :
    Kept ( parse_declaration_prefix around level statement) :=
  kept_repeat_rounds (kept_declaration_round around level hstatement) 0

theorem kept_parse_conditional_branch (terminators : List String) :
    Kept (parse_conditional_branch around level statement terminators) := by
  apply kept_bind (kept_parse_part _)
  intro guard
  apply kept_bind (kept_expect_contextual_keyword _)
  intro _
  exact kept_bind (kept_parse_block_body hstatement terminators) fun _ => kept_pure _

theorem kept_branch_round (word : String) (terminators : List String) (carried : Unit) :
    Kept (branch_round around level statement word terminators carried) := by
  apply kept_bind (kept_eat_contextual_keyword _)
  intro found
  apply kept_ite
  · exact kept_bind (kept_parse_conditional_branch around level hstatement terminators)
      fun _ => kept_pure _
  · exact kept_pure _

theorem kept_parse_conditional_branches (word : String) (terminators : List String) :
    Kept (parse_conditional_branches around level statement word terminators) := by
  apply kept_bind (kept_parse_conditional_branch around level hstatement terminators)
  intro head
  apply kept_bind
    (kept_repeat_rounds (kept_branch_round around level hstatement word terminators) ())
  intro tail
  exact kept_pure _

theorem kept_parse_else_body : Kept (parse_else_body statement) := by
  apply kept_bind (kept_eat_contextual_keyword _)
  intro found
  apply kept_ite
  · exact kept_bind (kept_parse_block_body hstatement _) fun _ => kept_pure _
  · exact kept_pure _

theorem kept_parse_if_statement : Kept (parse_if_statement around level statement) := by
  apply kept_bind (kept_expect_contextual_keyword _)
  intro _
  apply kept_bind (kept_parse_conditional_branches around level hstatement _ _)
  intro branches
  apply kept_bind (kept_parse_else_body hstatement)
  intro else_body
  apply kept_bind (kept_expect_contextual_keyword _)
  intro _
  exact kept_bind (kept_expect_contextual_keyword _) fun _ => kept_pure _

theorem kept_parse_case_statement : Kept (parse_case_statement around level statement) := by
  apply kept_bind (kept_expect_contextual_keyword _)
  intro _
  apply kept_bind (kept_parse_case_operand around level)
  intro operand
  apply kept_bind (kept_expect_contextual_keyword _)
  intro _
  apply kept_bind (kept_parse_conditional_branches around level hstatement _ _)
  intro branches
  apply kept_bind (kept_parse_else_body hstatement)
  intro else_body
  apply kept_bind (kept_expect_contextual_keyword _)
  intro _
  exact kept_bind (kept_expect_contextual_keyword _) fun _ => kept_pure _

theorem kept_parse_compound_statement (label : Option Ident) :
    Kept (parse_compound_statement around tests level statement label) := by
  apply kept_bind (kept_expect_contextual_keyword _)
  intro _
  apply kept_bind ( kept_parse_declaration_prefix around level hstatement)
  intro declarations
  apply kept_bind (kept_parse_block_body hstatement _)
  intro body
  apply kept_bind (kept_expect_contextual_keyword _)
  intro _
  exact kept_end_label around tests label

theorem kept_parse_loop_statement (label : Option Ident) :
    Kept (parse_loop_statement around tests statement label) := by
  apply kept_bind (kept_expect_contextual_keyword _)
  intro _
  apply kept_bind (kept_parse_block_body hstatement _)
  intro body
  apply kept_bind (kept_expect_contextual_keyword _)
  intro _
  apply kept_bind (kept_expect_contextual_keyword _)
  intro _
  exact kept_end_label around tests label

theorem kept_parse_while_statement (label : Option Ident) :
    Kept (parse_while_statement around tests level statement label) := by
  apply kept_bind (kept_expect_contextual_keyword _)
  intro _
  apply kept_bind (kept_parse_part _)
  intro condition
  apply kept_bind (kept_expect_contextual_keyword _)
  intro _
  apply kept_bind (kept_parse_block_body hstatement _)
  intro body
  apply kept_bind (kept_expect_contextual_keyword _)
  intro _
  apply kept_bind (kept_expect_contextual_keyword _)
  intro _
  exact kept_end_label around tests label

theorem kept_parse_repeat_statement (label : Option Ident) :
    Kept (parse_repeat_statement around tests level statement label) := by
  apply kept_bind (kept_expect_contextual_keyword _)
  intro _
  apply kept_bind (kept_parse_block_body hstatement _)
  intro body
  apply kept_bind (kept_expect_contextual_keyword _)
  intro _
  apply kept_bind (kept_parse_part _)
  intro condition
  apply kept_bind (kept_expect_contextual_keyword _)
  intro _
  apply kept_bind (kept_expect_contextual_keyword _)
  intro _
  exact kept_end_label around tests label

theorem kept_dispatch_unlabelled_construct :
    Kept (dispatch_unlabelled_construct around tests level statement) := by
  apply kept_bind (kept_peek_is_contextual_keyword _)
  intro found
  apply kept_ite
  · exact kept_parse_if_statement around level hstatement
  apply kept_bind (kept_peek_is_contextual_keyword _)
  intro found
  apply kept_ite
  · exact kept_parse_case_statement around level hstatement
  apply kept_bind (kept_peek_is_contextual_keyword _)
  intro found
  apply kept_ite
  · exact kept_parse_leave_statement around tests
  apply kept_bind (kept_peek_is_contextual_keyword _)
  intro found
  apply kept_ite
  · exact kept_parse_iterate_statement around tests
  apply kept_bind (kept_peek_is_contextual_keyword _)
  intro found
  apply kept_ite
  · exact kept_parse_return_statement around level
  apply kept_bind (kept_peek_is_contextual_keyword _)
  intro found
  apply kept_ite
  · exact kept_parse_open_cursor_statement around
  apply kept_bind (kept_peek_is_contextual_keyword _)
  intro found
  apply kept_ite
  · exact kept_parse_fetch_cursor_statement around
  apply kept_bind (kept_peek_is_contextual_keyword _)
  intro found
  apply kept_ite
  · exact kept_parse_close_cursor_statement around
  · exact kept_unexpected _

theorem kept_dispatch_body_construct (label : Option Ident) :
    Kept (dispatch_body_construct around tests level statement label) := by
  apply kept_bind (kept_peek_is_contextual_keyword _)
  intro found
  apply kept_ite
  · exact kept_parse_compound_statement around tests level hstatement label
  apply kept_bind (kept_peek_is_contextual_keyword _)
  intro found
  apply kept_ite
  · exact kept_parse_loop_statement around tests hstatement label
  apply kept_bind (kept_peek_is_contextual_keyword _)
  intro found
  apply kept_ite
  · exact kept_parse_while_statement around tests level hstatement label
  apply kept_bind (kept_peek_is_contextual_keyword _)
  intro found
  apply kept_ite
  · exact kept_parse_repeat_statement around tests level hstatement label
  apply kept_ite
  · exact kept_unexpected _
  · exact kept_dispatch_unlabelled_construct around tests level hstatement

theorem kept_parse_body_construct :
    Kept (parse_body_construct around tests level statement) := by
  apply kept_bind (kept_parse_open_label around)
  intro label
  cases label with
  | none =>
    exact kept_with_label none (kept_dispatch_body_construct around tests level hstatement none)
  | some label =>
    apply kept_bind (kept_parse_label_frame tests label)
    intro frame
    exact kept_with_label (some frame)
      (kept_dispatch_body_construct around tests level hstatement (some label))

end

theorem kept_body_statement {construct : ParseResult Statement} (hconstruct : Kept construct) :
    Kept (body_statement around level construct) := by
  apply kept_ite
  · exact kept_unexpected _
  · apply kept_bind kept_peek_starts_body_construct
    intro found
    apply kept_ite
    · exact hconstruct
    · exact kept_bind (kept_parse_part _) fun _ => kept_pure _

/-- Every body statement, at every level, gives the label stack back. -/
theorem kept_parse_body_statement_scoped :
    Kept (parse_body_statement_scoped around tests level) := by
  induction level with
  | zero => exact kept_body_statement around 0 (kept_throw _)
  | succ level ih =>
    exact kept_body_statement around (level + 1) (kept_parse_body_construct around tests level ih)

/-- Where a body is read to its end or fails, no label is left on the stack, and at each token the
stack was the list of the labels of the open constructs. -/
theorem parse_body_statement_aligned (tokens : Stream) :
    let t := stopped (parse_body_statement around tests level tokens)
    t.labels = [] ∧ t.opened = [] ∧ t.Aligned := by
  have h := kept_parse_body_statement_scoped around tests level ⟨tokens, [], [], []⟩
  refine ⟨h.labels, h.opened, h.aligned ⟨rfl, ?_⟩⟩
  intro opened labels hmem
  cases hmem

end

/-! ## A peek behind the cursor -/

theorem peek_nth_eq_ok {n : Nat} {s t : State} {token : Option Token}
    (h : peek_nth n s = .ok token t) : s.tokens[n]?.join = token ∧ s = t := by
  rw [peek_nth, bind_eq_ok_iff] at h
  obtain ⟨u, v, hget, h⟩ := h
  obtain ⟨rfl, rfl⟩ := get_eq_ok_iff.mp hget
  by_cases hfault : (s.tokens.take (n + 1)).any Option.isNone = true
  · rw [if_pos hfault] at h
    exact (throw_ne_ok.mp h).elim
  · rw [if_neg hfault] at h
    exact pure_eq_ok_iff.mp h

end squonk.parser.body
