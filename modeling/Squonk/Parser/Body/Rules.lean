import Squonk.Parser.Body.Labels

/-!
# The label rules of the server

Two labels are equal where their names are, without quotes and in any case. The parser compares the
texts instead, so that a quoted label and a bare one part, and it has nothing to say about an end
label behind a construct without a label. It keeps to the rules exactly on the bodies where neither
changes a verdict that decides.
-/

open squonk.tokenizer squonk.tokenizer.scan

namespace squonk.parser.body

section
variable (fold : Char → Char)

/-- Equal names, by the case folding of the server. -/
def Ident.same_name (a b : Ident) : Prop := a.name.map fold = b.name.map fold

instance (a b : Ident) : Decidable (a.same_name fold b) :=
  inferInstanceAs (Decidable (a.name.map fold = b.name.map fold))

/-- Equal texts, as the parser compares them. -/
def Ident.same_text (a b : Ident) : Prop := eq_ignore_ascii_case a.text b.text = true

instance (a b : Ident) : Decidable (a.same_text b) :=
  inferInstanceAs (Decidable (eq_ignore_ascii_case a.text b.text = true))

/-- A label is fresh in the constructs around it, `LEAVE` names a block or a loop around it,
`ITERATE` a loop, and an end label is that of a labelled construct. -/
def Check.Allowed : Check → Prop
  | .fresh labels label => ¬ ∃ frame ∈ labels, frame.label.same_name fold label
  | .leaves labels label => ∃ frame ∈ labels, frame.label.same_name fold label
  | .iterates labels label =>
    ∃ frame ∈ labels, frame.kind = .Loop ∧ frame.label.same_name fold label
  | .ends _ none => True
  | .ends none (some _) => False
  | .ends (some open_label) (some close) => open_label.same_name fold close

/-- The comparison of texts finds a label where that of names finds none, or the other way round,
or an end label stands behind no label. -/
def Check.Misjudged : Check → Prop
  | .fresh labels label | .leaves labels label =>
    ¬ ((∃ frame ∈ labels, frame.label.same_text label) ↔
      ∃ frame ∈ labels, frame.label.same_name fold label)
  | .iterates labels label =>
    ¬ ((∃ frame ∈ labels, frame.kind = .Loop ∧ frame.label.same_text label) ↔
      ∃ frame ∈ labels, frame.kind = .Loop ∧ frame.label.same_name fold label)
  | .ends _ none => False
  | .ends none (some _) => True
  | .ends (some open_label) (some close) =>
    ¬ (open_label.same_text close ↔ open_label.same_name fold close)

end

theorem label_in_scope_iff {labels : List LabelFrame} {name : Ident} :
    label_in_scope labels name false = true ↔ ∃ frame ∈ labels, frame.label.same_text name := by
  simp [label_in_scope, Ident.same_text]

theorem loop_in_scope_iff {labels : List LabelFrame} {name : Ident} :
    label_in_scope labels name true = true ↔
      ∃ frame ∈ labels, frame.kind = .Loop ∧ frame.label.same_text name := by
  simp [label_in_scope, Ident.same_text]

section
variable {fold : Char → Char}

/-- The tests of the parser go wrong on the checks that are misjudged, and on no other. -/
theorem misjudged_iff {check : Check} :
    check.Misjudged fold ↔ ¬ (label_tests check = true ↔ check.Allowed fold) := by
  cases check with
  | fresh labels label =>
    have htest : label_tests (.fresh labels label) = true ↔
        ¬ ∃ frame ∈ labels, frame.label.same_text label := by
      rw [← label_in_scope_iff]
      simp [label_tests]
    rw [htest, Check.Misjudged, Check.Allowed]
    exact not_congr not_iff_not.symm
  | leaves labels label =>
    have htest : label_tests (.leaves labels label) = true ↔
        ∃ frame ∈ labels, frame.label.same_text label := label_in_scope_iff
    rw [htest, Check.Misjudged, Check.Allowed]
  | iterates labels label =>
    have htest : label_tests (.iterates labels label) = true ↔
        ∃ frame ∈ labels, frame.kind = .Loop ∧ frame.label.same_text label := loop_in_scope_iff
    rw [htest, Check.Misjudged, Check.Allowed]
  | ends open_label close =>
    cases close with
    | none => simp [Check.Misjudged, Check.Allowed, label_tests, label_matches]
    | some close =>
      cases open_label with
      | none => simp [Check.Misjudged, Check.Allowed, label_tests, label_matches]
      | some open_label => rfl

/-- Two verdicts that each ask for all checks agree where they agree on every check, or where each
of them refuses some check. -/
theorem verdicts_agree_iff {checks : List Check} :
    ((∀ check ∈ checks, label_tests check = true) ↔ ∀ check ∈ checks, check.Allowed fold) ↔
      (∀ check ∈ checks, ¬ check.Misjudged fold) ∨
        (∃ check ∈ checks, label_tests check = false) ∧
          ∃ check ∈ checks, ¬ check.Allowed fold := by
  simp only [misjudged_iff, not_not]
  constructor
  · intro hiff
    by_cases hall : ∀ check ∈ checks, label_tests check = true
    · left
      intro check hmem
      exact iff_of_true (hall check hmem) (hiff.mp hall check hmem)
    · right
      have hrules : ¬ ∀ check ∈ checks, check.Allowed fold := fun h => hall (hiff.mpr h)
      push Not at hall hrules
      obtain ⟨check, hmem, htest⟩ := hall
      exact ⟨⟨check, hmem, Bool.eq_false_of_not_eq_true htest⟩, hrules⟩
  · rintro (heach | ⟨⟨check, hmem, htest⟩, other, hother, hrule⟩)
    · constructor
      · intro hall check hmem
        exact (heach check hmem).mp (hall check hmem)
      · intro hall check hmem
        exact (heach check hmem).mpr (hall check hmem)
    · constructor
      · intro hall
        rw [hall check hmem] at htest
        cases htest
      · intro hall
        exact absurd (hall other hother) hrule

end

section
variable (around : Around) (level : Nat) (tokens : Stream) (fold : Char → Char)

/-- The run of the parser on a body. -/
def label_run : EStateM.Result ParseError State Statement :=
  parse_body_statement around label_tests level tokens

/-- The parser reads a body that is read apart from its labels where the label rules hold of it,
and at each token, on whatever path, its stack is the list of the labels of the open constructs. -/
structure LabelScoping : Prop where
  accepted : ∀ statement t, parse_body_statement around untested level tokens = .ok statement t →
    ((∃ read u, label_run around level tokens = .ok read u) ↔
      ∀ check ∈ statement.checks [], check.Allowed fold)
  stack : ∀ opened labels, (opened, labels) ∈ (stopped (label_run around level tokens)).visited →
    labels = open_labels opened
  restored : (stopped (label_run around level tokens)).labels = []

/-- No check of the body is misjudged, or the parser and the rules each refuse one. -/
def WellLabelled : Prop :=
  ∀ statement t, parse_body_statement around untested level tokens = .ok statement t →
    (∀ check ∈ statement.checks [], ¬ check.Misjudged fold) ∨
      (∃ check ∈ statement.checks [], label_tests check = false) ∧
        ∃ check ∈ statement.checks [], ¬ check.Allowed fold

theorem label_run_accepts {statement : Statement} {t : State}
    (h : parse_body_statement around untested level tokens = .ok statement t) :
    (∃ read u, label_run around level tokens = .ok read u) ↔
      ∀ check ∈ statement.checks [], label_tests check = true := by
  have hjudged := @judged_parse_body_statement_scoped around label_tests level ⟨tokens, [], [], []⟩
  constructor
  · rintro ⟨read, u, hread⟩
    obtain ⟨hfree, hall⟩ := (hjudged read u).mp hread
    obtain ⟨rfl, _⟩ := EStateM.Result.ok.inj (h.symm.trans hfree)
    exact hall
  · intro hall
    exact ⟨statement, t, (hjudged statement t).mpr ⟨h, hall⟩⟩

theorem label_scoping_iff :
    LabelScoping around level tokens fold ↔ WellLabelled around level tokens fold := by
  constructor
  · intro hscoping statement t h
    have haccepted := hscoping.accepted statement t h
    rw [label_run_accepts around level tokens h] at haccepted
    exact verdicts_agree_iff.mp haccepted
  · intro hwell
    obtain ⟨hlabels, _, haligned⟩ :=
      parse_body_statement_aligned around label_tests level tokens
    refine ⟨?_, haligned.visited, hlabels⟩
    intro statement t h
    rw [label_run_accepts around level tokens h]
    exact verdicts_agree_iff.mpr (hwell statement t h)

end

/-! ## Two bodies on which the parser and the rules part -/

/-- A body around which no other grammar is read. -/
private def bare_body : Around where
  compound_statements := true
  body_return_allowed := true
  reserved_column_name _ := false
  unicode_ident _ := .error (.other "an identifier")
  statement _ _ := .error (.other "a statement")
  expr _ _ := .error (.other "an expression")
  query _ _ := .error (.other "a query")
  data_type _ _ := .error (.other "a type")
  string_literal _ _ := .error (.other "a string")
  unsigned_integer_literal _ _ := .error (.other "an integer")

private def word_token (text : String) : Option Token := some ⟨.Word, text.toList⟩

private def bare_label (text : String) : Ident := ⟨text.toList, text.toList⟩

private def quoted_label : Ident := ⟨"`lp`".toList, "lp".toList⟩

/-- `BEGIN END lp` -/
private def ended_body : Stream := [word_token "BEGIN", word_token "END", word_token "lp"]

/-- The loop `lp`, which is left by its name in quotes. -/
private def left_body : Stream :=
  [word_token "lp", some ⟨.Punctuation .Colon, ":".toList⟩, word_token "LOOP",
    word_token "LEAVE", some ⟨.QuotedIdent, "`lp`".toList⟩,
    some ⟨.Punctuation .Semicolon, ";".toList⟩, word_token "END", word_token "LOOP"]

/-- An end label behind no label is accepted, and a quoted label is not found under its name. -/
theorem label_scoping_fails :
    ¬ LabelScoping bare_body 2 ended_body Char.toLower ∧
      ¬ LabelScoping bare_body 2 left_body Char.toLower := by
  constructor
  · intro h
    obtain ⟨t, hread⟩ : ∃ t, parse_body_statement bare_body untested 2 ended_body =
        .ok (.Compound none [] [] (some (bare_label "lp"))) t := ⟨_, rfl⟩
    have hall := (h.accepted _ t hread).mp ⟨_, _, rfl⟩
    have hmem : Check.ends none (some (bare_label "lp")) ∈
        (Statement.Compound none [] [] (some (bare_label "lp"))).checks [] := by
      simp [Statement.checks, fresh_checks, Statement.inner_checks, declaration_checks,
        body_checks, Statement.frame]
    exact hall _ hmem
  · intro h
    obtain ⟨t, hread⟩ : ∃ t, parse_body_statement bare_body untested 2 left_body =
        .ok (.Loop (some (bare_label "lp")) [.Leave quoted_label] none) t := ⟨_, rfl⟩
    have hall : ∀ check ∈
        (Statement.Loop (some (bare_label "lp")) [.Leave quoted_label] none).checks [],
        check.Allowed Char.toLower := by
      intro check hmem
      have hcases : check = .fresh [] (bare_label "lp") ∨
          check = .leaves [⟨bare_label "lp", .Loop⟩] quoted_label ∨
          check = .ends (some (bare_label "lp")) none := by
        simpa [Statement.checks, fresh_checks, Statement.inner_checks, body_checks,
          Statement.frame] using hmem
      obtain rfl | rfl | rfl := hcases
      · rintro ⟨frame, hframe, _⟩
        cases hframe
      · exact ⟨⟨bare_label "lp", .Loop⟩, List.mem_singleton_self _, rfl⟩
      · trivial
    obtain ⟨read, u, hrun⟩ := (h.accepted _ t hread).mpr hall
    obtain ⟨error, v, herror⟩ : ∃ error v, label_run bare_body 2 left_body = .error error v :=
      ⟨_, _, rfl⟩
    rw [herror] at hrun
    cases hrun

end squonk.parser.body
