import Squonk.Parser.Temporal

/-!
# Where a temporal literal reads

What the parser reads stands behind its place, so that the value string of a literal lies within
the span of the literal, behind its type.
-/

open squonk.ast.literal squonk.document squonk.tokenizer squonk.tokenizer.scan

namespace squonk.parser.temporal

/-- The tokens stand one behind the other, from a place on. -/
def Ascends (source : List Char) : Nat → List scan.Token → Prop
  | _, [] => True
  | pos, token :: rest =>
    pos ≤ token.span.start ∧ token.span.start < token.span.stop ∧ Edge source token.span.start ∧
      Edge source token.span.stop ∧ Ascends source token.span.stop rest

structure Placed (source : List Char) (s : Position) : Prop where
  span : s.preceding.start ≤ s.preceding.stop
  edge : Edge source s.preceding.stop
  rest : Ascends source s.preceding.stop s.rest

/-- The parser has not gone back. -/
structure Moved (source : List Char) (s s' : Position) : Prop where
  placed : Placed source s'
  start : s.preceding.start ≤ s'.preceding.start
  stop : s.preceding.stop ≤ s'.preceding.stop

theorem Placed.moved {source : List Char} {s : Position} (h : Placed source s) : Moved source s s :=
  ⟨h, Nat.le_refl _, Nat.le_refl _⟩

theorem Moved.trans {source : List Char} {s s' s'' : Position} (h : Moved source s s')
    (h' : Moved source s' s'') : Moved source s s'' :=
  ⟨h'.placed, h.start.trans h'.start, h.stop.trans h'.stop⟩

/-- What is read stands behind the parser's place. -/
def Takes {α : Type} (source : List Char) (read : ParseResult α) : Prop :=
  ∀ s a s', Placed source s → read s = .ok (a, s') → Moved source s s'

section

variable {α β : Type} {source : List Char}

theorem bind_ok {x : ParseResult α} {f : α → ParseResult β} {s s' : Position} {b : β} :
    (x >>= f) s = .ok (b, s') ↔ ∃ a s₁, x s = .ok (a, s₁) ∧ f a s₁ = .ok (b, s') := by
  show Except.bind (x s) (fun p => f p.1 p.2) = _ ↔ _
  cases hx : x s with
  | error e => simp [Except.bind]
  | ok p =>
    obtain ⟨a, s₁⟩ := p
    simp [Except.bind]

theorem Takes.pure (a : α) : Takes source (Pure.pure a) := by
  rintro s a s' hplaced ⟨⟩
  exact hplaced.moved

theorem Takes.bind {x : ParseResult α} {f : α → ParseResult β} (hx : Takes source x)
    (hf : ∀ a, Takes source (f a)) : Takes source (x >>= f) := by
  intro s b s' hplaced hrun
  obtain ⟨a, s₁, hfirst, hrest⟩ := bind_ok.mp hrun
  have hmoved := hx s a s₁ hplaced hfirst
  exact hmoved.trans (hf a s₁ b s' hmoved.placed hrest)

theorem Takes.ite {p : Prop} [Decidable p] {x y : ParseResult α} (hx : Takes source x)
    (hy : Takes source y) : Takes source (if p then x else y) := by
  split
  · exact hx
  · exact hy

theorem takes_throw (e : ParseError) : Takes source (throw e : ParseResult α) := by
  rintro s a s' - ⟨⟩

theorem peek_ok {s s' : Position} {next : Option scan.Token} :
    peek s = .ok (next, s') ↔ next = s.rest.head? ∧ s' = s := by
  show Except.ok (s.rest.head?, s) = _ ↔ _
  simp [eq_comm]

theorem takes_peek : Takes source peek := by
  intro s a s' hplaced hrun
  obtain ⟨-, rfl⟩ := peek_ok.mp hrun
  exact hplaced.moved

theorem takes_advance : Takes source advance := by
  rintro ⟨preceding, rest⟩ a s' hplaced hrun
  cases rest with
  | nil =>
    cases hrun
    exact hplaced.moved
  | cons token rest =>
    cases hrun
    obtain ⟨hpos, hlt, -, hstop, hrest⟩ := hplaced.rest
    exact ⟨⟨hlt.le, hstop, hrest⟩, hplaced.span.trans hpos, hpos.trans hlt.le⟩

theorem takes_error_at (span : Span) (expected : String) :
    Takes source (error_at span expected : ParseResult α) := takes_throw _

theorem takes_unexpected (expected : String) :
    Takes source (unexpected expected : ParseResult α) :=
  takes_peek.bind fun _ => takes_throw _

theorem takes_eat (test : scan.Token → Bool) : Takes source (eat test) :=
  takes_peek.bind fun _ => .ite (takes_advance.bind fun _ => .pure _) (.pure _)

end

section

variable {source : List Char} {bytes : List SourceByte}

theorem takes_eat_contextual_keyword (expected : String) :
    Takes source (eat_contextual_keyword bytes expected) := takes_eat _

theorem takes_expect_contextual_keyword (expected : String) :
    Takes source (expect_contextual_keyword bytes expected) :=
  (takes_eat_contextual_keyword expected).bind fun _ => .ite (takes_unexpected _) (.pure _)

theorem takes_expect_punct (punct : Punctuation) (expected : String) :
    Takes source (expect_punct punct expected) :=
  (takes_eat _).bind fun _ => .ite (takes_unexpected _) (.pure _)

theorem takes_parse_u32_type_modifier : Takes source (parse_u32_type_modifier bytes) := by
  refine takes_peek.bind fun next => ?_
  cases next with
  | none => exact takes_unexpected _
  | some token =>
    refine .ite (.ite (takes_error_at _ _) (takes_advance.bind fun _ => ?_)) (takes_unexpected _)
    exact .ite (takes_error_at _ _) (.pure _)

theorem takes_parse_optional_single_type_modifier :
    Takes source (parse_optional_single_type_modifier bytes) := by
  refine (takes_eat _).bind fun _ => .ite ?_ (.pure _)
  exact takes_parse_u32_type_modifier.bind fun _ => (takes_expect_punct _ _).bind fun _ => .pure _

theorem takes_parse_optional_time_zone : Takes source (parse_optional_time_zone bytes) := by
  have hzone (zone : TimeZone) : Takes source (do
      expect_contextual_keyword bytes "TIME"
      expect_contextual_keyword bytes "ZONE"
      return zone) :=
    (takes_expect_contextual_keyword _).bind fun _ =>
      (takes_expect_contextual_keyword _).bind fun _ => .pure _
  refine (takes_eat _).bind fun _ => .ite (hzone _) ?_
  exact (takes_eat_contextual_keyword _).bind fun _ => .ite (hzone _) (.pure _)

theorem takes_eat_unit (units : List (String × IntervalFields)) :
    Takes source (eat_unit bytes units) := by
  induction units with
  | nil => exact .pure _
  | cons unit units ih =>
    exact (takes_eat_contextual_keyword _).bind fun _ => .ite (.pure _) ih

theorem takes_coalesce_interval_precision (a b : Option Nat) :
    Takes source (coalesce_interval_precision a b) := by
  cases a <;> cases b <;> first | exact .pure _ | exact takes_unexpected _

theorem takes_finish_interval_to_second (fields : IntervalFields) (leading : Option Nat) :
    Takes source (finish_interval_to_second bytes fields leading) :=
  takes_parse_optional_single_type_modifier.bind fun _ =>
    (takes_coalesce_interval_precision _ _).bind fun _ => .pure _

theorem takes_parse_year_fields : Takes source (parse_year_fields bytes) := by
  refine takes_parse_optional_single_type_modifier.bind fun _ => ?_
  refine (takes_eat_contextual_keyword _).bind fun _ => .ite ?_ (.pure _)
  exact (takes_expect_contextual_keyword _).bind fun _ => .pure _

theorem takes_parse_day_fields : Takes source (parse_day_fields bytes) := by
  refine takes_parse_optional_single_type_modifier.bind fun _ => ?_
  refine (takes_eat_contextual_keyword _).bind fun _ => .ite ?_ (.pure _)
  refine (takes_eat_contextual_keyword _).bind fun _ => .ite (.pure _) ?_
  refine (takes_eat_contextual_keyword _).bind fun _ => .ite (.pure _) ?_
  refine (takes_eat_contextual_keyword _).bind fun _ => .ite ?_ (takes_unexpected _)
  exact takes_finish_interval_to_second _ _

theorem takes_parse_hour_fields : Takes source (parse_hour_fields bytes) := by
  refine takes_parse_optional_single_type_modifier.bind fun _ => ?_
  refine (takes_eat_contextual_keyword _).bind fun _ => .ite ?_ (.pure _)
  refine (takes_eat_contextual_keyword _).bind fun _ => .ite (.pure _) ?_
  refine (takes_eat_contextual_keyword _).bind fun _ => .ite ?_ (takes_unexpected _)
  exact takes_finish_interval_to_second _ _

theorem takes_parse_minute_fields : Takes source (parse_minute_fields bytes) := by
  refine takes_parse_optional_single_type_modifier.bind fun _ => ?_
  refine (takes_eat_contextual_keyword _).bind fun _ => .ite ?_ (.pure _)
  exact (takes_expect_contextual_keyword _).bind fun _ => takes_finish_interval_to_second _ _

theorem takes_parse_standard_fields : Takes source (parse_standard_fields bytes) := by
  have hmodified (fields : IntervalFields) : Takes source (do
      return (some fields, ← parse_optional_single_type_modifier bytes)) :=
    takes_parse_optional_single_type_modifier.bind fun _ => .pure _
  refine (takes_eat_contextual_keyword _).bind fun _ => .ite takes_parse_year_fields ?_
  refine (takes_eat_contextual_keyword _).bind fun _ => .ite (hmodified _) ?_
  refine (takes_eat_contextual_keyword _).bind fun _ => .ite takes_parse_day_fields ?_
  refine (takes_eat_contextual_keyword _).bind fun _ => .ite takes_parse_hour_fields ?_
  refine (takes_eat_contextual_keyword _).bind fun _ => .ite takes_parse_minute_fields ?_
  exact (takes_eat_contextual_keyword _).bind fun _ => .ite (hmodified _) (.pure _)

theorem takes_parse_optional_interval_fields (syn : TemporalSyntax) :
    Takes source (parse_optional_interval_fields bytes syn) := by
  unfold parse_optional_interval_fields
  split
  · refine (takes_eat_unit _).bind fun unit => ?_
    cases unit with
    | some fields => exact .pure _
    | none => exact takes_parse_standard_fields
  · refine (Takes.pure none).bind fun unit => ?_
    cases unit with
    | some fields => exact .pure _
    | none => exact takes_parse_standard_fields

end

/-! ## Value strings -/

section

variable {source : List Char} {bytes : List SourceByte} {syn : TemporalSyntax}

theorem advance_ok {preceding : Span} {token : scan.Token} {rest : List scan.Token}
    {s' : Position} :
    advance ⟨preceding, token :: rest⟩ = .ok ((), s') ↔ s' = ⟨token.span, rest⟩ := by
  show Except.ok ((), (⟨token.span, rest⟩ : Position)) = _ ↔ _
  simp [eq_comm]

theorem union_behind {a b : Span} (hstart : a.start ≤ b.start) (hstop : a.stop ≤ b.stop) :
    union a b = ⟨a.start, b.stop⟩ := by
  simp only [union, Nat.min_eq_left hstart, Nat.max_eq_right hstop]

/-- A run keeps the start of its first segment and stops where the parser stands. -/
theorem consume_string_run_spec (n : Nat) {first value : Span} {s s' : Position}
    (hplaced : Placed source s) (hfirst : first.start ≤ first.stop)
    (hstop : first.stop = s.preceding.stop)
    (hrun : consume_string_run bytes syn n first s = .ok (value, s')) :
    Moved source s s' ∧ value.start = first.start ∧ value.stop = s'.preceding.stop := by
  induction n generalizing first s with
  | zero =>
    cases hrun
    exact ⟨hplaced.moved, rfl, hstop⟩
  | succ n ih =>
    obtain ⟨next, s₁, hpeek, hrest⟩ := bind_ok.mp hrun
    obtain ⟨rfl, rfl⟩ := peek_ok.mp hpeek
    obtain ⟨preceding, rest⟩ := s₁
    -- the run ends here
    have hends (h : (pure first : ParseResult Span) ⟨preceding, rest⟩ = .ok (value, s')) :
        Moved source ⟨preceding, rest⟩ s' ∧ value.start = first.start ∧
          value.stop = s'.preceding.stop := by
      cases h
      exact ⟨hplaced.moved, rfl, hstop⟩
    cases rest with
    | nil => exact hends hrest
    | cons next rest =>
      -- the next segment is taken
      have htakes (h : (advance >>= fun _ => consume_string_run bytes syn n (union first next.span))
          ⟨preceding, next :: rest⟩ = .ok (value, s')) :
          Moved source ⟨preceding, next :: rest⟩ s' ∧ value.start = first.start ∧
            value.stop = s'.preceding.stop := by
        obtain ⟨_, s₂, hadvance, htail⟩ := bind_ok.mp h
        have hmoved := takes_advance _ _ _ hplaced hadvance
        obtain rfl := advance_ok.mp hadvance
        obtain ⟨hpos, hlt, -, -, -⟩ := hplaced.rest
        have hpos' : first.stop ≤ next.span.start := hstop.trans_le hpos
        have hnext : first.stop ≤ next.span.stop := hpos'.trans hlt.le
        rw [union_behind (hfirst.trans hpos') hnext] at htail
        obtain ⟨hmoved', hstart, hend⟩ := @ih ⟨first.start, next.span.stop⟩ _ hmoved.placed
          (hfirst.trans hnext) rfl htail
        exact ⟨hmoved.trans hmoved', hstart, hend⟩
      dsimp only [List.head?_cons] at hrest
      split at hrest
      · generalize classify_continuation_gap _ = gap at hrest
        cases gap with
        | Newline => exact htakes hrest
        | SameLine =>
          dsimp only at hrest
          split at hrest
          · exact htakes hrest
          · cases hrest
        | NotWhitespace => exact hends hrest
      · exact hends hrest

/-- The value string lies between the places of the parser before and behind it. -/
structure Between (source : List Char) (s : Position) (value : Span) (s' : Position) : Prop where
  moved : Moved source s s'
  behind : s.preceding.stop ≤ value.start
  nonempty : value.start < value.stop
  within : value.stop ≤ s'.preceding.stop
  start : Edge source value.start
  stop : Edge source value.stop

theorem Between.after {s s₁ s' : Position} {value : Span} (h : Moved source s s₁)
    (h' : Between source s₁ value s') : Between source s value s' :=
  ⟨h.trans h'.moved, h.stop.trans h'.behind, h'.nonempty, h'.within, h'.start, h'.stop⟩

theorem Between.before {s s₁ s' : Position} {value : Span} (h : Between source s value s₁)
    (h' : Moved source s₁ s') : Between source s value s' :=
  ⟨h.moved.trans h', h.behind, h.nonempty, h.within.trans h'.stop, h.start, h.stop⟩

theorem consume_temporal_value_string_spec {value : Span} {s s' : Position}
    (hplaced : Placed source s)
    (hrun : consume_temporal_value_string bytes syn s = .ok (some value, s')) :
    Between source s value s' := by
  obtain ⟨next, s₁, hpeek, hrest⟩ := bind_ok.mp hrun
  obtain ⟨rfl, rfl⟩ := peek_ok.mp hpeek
  obtain ⟨preceding, rest⟩ := s₁
  cases rest with
  | nil => cases hrest
  | cons token rest =>
    obtain ⟨_, s₂, hadvance, hrest⟩ := bind_ok.mp hrest
    have hmoved := takes_advance _ _ _ hplaced hadvance
    obtain rfl := advance_ok.mp hadvance
    obtain ⟨hpos, hlt, hedge, hedge', -⟩ := hplaced.rest
    obtain ⟨span, s₃, hrun, hend⟩ := bind_ok.mp hrest
    cases hend
    unfold consume_string_continuations at hrun
    split at hrun
    · -- a dollar-quoted string is not continued
      cases hrun
      exact ⟨hmoved, hpos, hlt, Nat.le_refl _, hedge, hedge'⟩
    · obtain ⟨s₄, s₅, hget, hrun⟩ := bind_ok.mp hrun
      cases hget
      obtain ⟨hmoved', hstart, hstop⟩ :=
        consume_string_run_spec _ hmoved.placed hlt.le rfl hrun
      have hbehind := hmoved'.stop
      exact ⟨hmoved.trans hmoved', hstart ▸ hpos, by rw [hstart, hstop]; exact hlt.trans_le hbehind,
        hstop.le, hstart ▸ hedge, hstop ▸ hmoved'.placed.edge⟩

/-! ## Literals -/

/-- What is read with a value string is temporal, and has the string between its places. -/
def Values (source : List Char) (read : ParseResult (Option (LiteralKind × Option Span))) : Prop :=
  ∀ s kind value s', Placed source s → read s = .ok (some (kind, some value), s') →
    kind.is_temporal = true ∧ Between source s value s'

theorem Values.bind {α : Type} {x : ParseResult α}
    {f : α → ParseResult (Option (LiteralKind × Option Span))} (hx : Takes source x)
    (hf : ∀ a, Values source (f a)) : Values source (x >>= f) := by
  intro s kind value s' hplaced hrun
  obtain ⟨a, s₁, hfirst, hrest⟩ := bind_ok.mp hrun
  have hmoved := hx s a s₁ hplaced hfirst
  obtain ⟨hkind, hbetween⟩ := hf a s₁ kind value s' hmoved.placed hrest
  exact ⟨hkind, hbetween.after hmoved⟩

theorem takes_peek_is_sconst : Takes source (peek_is_sconst bytes) :=
  takes_peek.bind fun _ => .pure _

theorem values_parse_temporal_tail {read : ParseResult LiteralKind} (hread : Takes source read)
    (htemporal : ∀ s kind s', read s = .ok (kind, s') → kind.is_temporal = true) :
    Values source (parse_temporal_tail bytes syn read) := by
  intro s kind value s' hplaced hrun
  obtain ⟨kind', s₁, hkind, hrest⟩ := bind_ok.mp hrun
  have hmoved := hread _ _ _ hplaced hkind
  obtain ⟨sconst, s₂, hsconst, hrest⟩ := bind_ok.mp hrest
  have hmoved' := takes_peek_is_sconst _ _ _ hmoved.placed hsconst
  cases sconst with
  | false => cases hrest
  | true =>
    obtain ⟨span, s₃, hvalue, hend⟩ := bind_ok.mp hrest
    cases hend
    have hbetween := consume_temporal_value_string_spec hmoved'.placed hvalue
    exact ⟨htemporal _ _ _ hkind, hbetween.after (hmoved.trans hmoved')⟩

/-- A type that may have a precision and a time zone. -/
theorem values_zoned {kind : TimeZone → LiteralKind}
    (hkind : ∀ zone, (kind zone).is_temporal = true) :
    Values source (parse_temporal_tail bytes syn do
      discard (parse_optional_single_type_modifier bytes)
      return kind (← parse_optional_time_zone bytes)) := by
  refine values_parse_temporal_tail ?_ fun s read s' hread => ?_
  · exact (takes_parse_optional_single_type_modifier.bind fun _ => .pure _).bind fun _ =>
      takes_parse_optional_time_zone.bind fun _ => .pure _
  · obtain ⟨_, s₁, -, hrest⟩ := bind_ok.mp hread
    obtain ⟨zone, s₂, -, hend⟩ := bind_ok.mp hrest
    cases hend
    exact hkind zone

theorem values_parse_interval_tail : Values source (parse_interval_tail bytes syn) := by
  refine .bind takes_parse_optional_single_type_modifier fun leading =>
    .bind takes_peek_is_sconst fun sconst => ?_
  cases sconst with
  | false => rintro s kind value s' - ⟨⟩
  | true =>
    intro s kind' value s' hplaced hrun
    obtain ⟨span, s₁, hvalue, hrest⟩ := bind_ok.mp hrun
    obtain ⟨fields, s₂, hfields, hrest⟩ := bind_ok.mp hrest
    obtain ⟨precision, s₃, hprecision, hend⟩ := bind_ok.mp hrest
    cases hend
    have hbetween := consume_temporal_value_string_spec hplaced hvalue
    have hmoved := takes_parse_optional_interval_fields syn _ _ _ hbetween.moved.placed hfields
    have hmoved' := takes_coalesce_interval_precision _ _ _ _ _ hmoved.placed hprecision
    exact ⟨rfl, hbetween.before (hmoved.trans hmoved')⟩

theorem eat_false {test : scan.Token → Bool} {s s' : Position}
    (h : eat test s = .ok (false, s')) : s' = s := by
  obtain ⟨next, s₁, hpeek, hrest⟩ := bind_ok.mp h
  obtain ⟨rfl, rfl⟩ := peek_ok.mp hpeek
  split at hrest
  · obtain ⟨_, s₂, -, hend⟩ := bind_ok.mp hrest
    cases hend
  · cases hrest
    rfl

/-- Where there is no relaxed amount the parser stays where it is. -/
theorem try_parse_relaxed_interval_amount_none {parse_expr : ParseResult Unit}
    {parse_float_as_decimal : Bool} {s s' : Position}
    (h : try_parse_relaxed_interval_amount bytes syn parse_expr parse_float_as_decimal s =
      .ok (none, s')) : s' = s := by
  obtain ⟨integer, s₁, heat, hrest⟩ := bind_ok.mp h
  cases integer with
  | true =>
    obtain ⟨kind, s₂, -, hend⟩ := bind_ok.mp hrest
    cases hend
  | false =>
    obtain rfl := eat_false heat
    rw [if_neg Bool.false_ne_true] at hrest
    obtain ⟨next, s₂, hpeek, hamount⟩ := bind_ok.mp hrest
    obtain ⟨-, rfl⟩ := peek_ok.mp hpeek
    split at hamount
    · obtain ⟨checkpoint, s₃, hget, hrest⟩ := bind_ok.mp hamount
      cases hget
      obtain ⟨amount, s₄, -, hrest⟩ := bind_ok.mp hrest
      cases amount with
      | some kind => cases hrest
      | none =>
        obtain ⟨_, s₅, hset, hend⟩ := bind_ok.mp hrest
        cases hset
        cases hend
        rfl
    · cases hamount
      rfl

theorem try_parse_temporal_literal_value {parse_expr : ParseResult Unit}
    {parse_float_as_decimal : Bool} {keyword : TemporalKeyword} {preceding : Span}
    {token : scan.Token} {rest : List scan.Token} {s' : Position} {kind : LiteralKind}
    {value : Span} (hplaced : Placed source ⟨preceding, token :: rest⟩)
    (hrun : try_parse_temporal_literal bytes syn parse_expr parse_float_as_decimal keyword
      ⟨preceding, token :: rest⟩ = .ok (some (kind, some value), s')) :
    kind.is_temporal = true ∧ Between source ⟨token.span, rest⟩ value s' := by
  unfold try_parse_temporal_literal at hrun
  split at hrun
  · cases hrun
  obtain ⟨_, s₁, hadvance, hrest⟩ := bind_ok.mp hrun
  have hbehind := (takes_advance _ _ _ hplaced hadvance).placed
  obtain rfl := advance_ok.mp hadvance
  cases keyword with
  | Date =>
    refine values_parse_temporal_tail (.pure _) ?_ _ _ _ _ hbehind hrest
    rintro s kind s' ⟨⟩
    rfl
  | Time => exact values_zoned (fun _ => rfl) _ _ _ _ hbehind hrest
  | Timestamp => exact values_zoned (fun _ => rfl) _ _ _ _ hbehind hrest
  | Interval =>
    dsimp only at hrest
    split at hrest
    · cases hrest
    split at hrest
    · obtain ⟨amount, s₁, hamount, hrest⟩ := bind_ok.mp hrest
      cases amount with
      | some amount => cases hrest
      | none =>
        obtain rfl := try_parse_relaxed_interval_amount_none hamount
        exact values_parse_interval_tail _ _ _ _ hbehind hrest
    · exact values_parse_interval_tail _ _ _ _ hbehind hrest

/-- The literal is temporal, and its value string lies within its span, behind its type. -/
theorem parse_temporal_value {parse_expr : ParseResult Unit} {parse_float_as_decimal : Bool}
    {keyword : TemporalKeyword} {s s' : Position} {parsed : Parsed} {value : Span}
    (hplaced : Placed source s)
    (hrun : parse_temporal bytes syn parse_expr parse_float_as_decimal keyword s =
      .ok (some parsed, s')) (hvalue : parsed.value = some value) :
    parsed.literal.kind.is_temporal = true ∧
      parsed.literal.span.start ≤ value.start ∧ value.start < value.stop ∧
      value.stop ≤ parsed.literal.span.stop ∧ Edge source parsed.literal.span.start ∧
      Edge source value.start ∧ Edge source value.stop ∧
      Edge source parsed.literal.span.stop := by
  obtain ⟨next, s₁, hpeek, hrest⟩ := bind_ok.mp hrun
  obtain ⟨rfl, rfl⟩ := peek_ok.mp hpeek
  obtain ⟨preceding, rest⟩ := s₁
  cases rest with
  | nil => cases hrest
  | cons token rest =>
    obtain ⟨read, s₂, hliteral, hrest⟩ := bind_ok.mp hrest
    cases read with
    | none => cases hrest
    | some read =>
      obtain ⟨kind, value'⟩ := read
      obtain ⟨s₃, s₄, hget, hend⟩ := bind_ok.mp hrest
      cases hget
      cases hend
      dsimp only at hvalue
      subst hvalue
      obtain ⟨hkind, hbetween⟩ := try_parse_temporal_literal_value hplaced hliteral
      obtain ⟨-, hlt, hedge, -, -⟩ := hplaced.rest
      have hmoved := hbetween.moved
      have hbehind := hbetween.behind
      dsimp only
      rw [union_behind hmoved.start hmoved.stop]
      exact ⟨hkind, hlt.le.trans hbehind, hbetween.nonempty, hbetween.within, hedge, hbetween.start,
        hbetween.stop, hmoved.placed.edge⟩

end

end squonk.parser.temporal
