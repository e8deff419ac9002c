import Mathlib.Data.List.TakeWhile
import Squonk.Parser.Method.Agreement
import Squonk.Parser.Method.Limit
import Squonk.Parser.Method.Marks
import Squonk.Parser.Method.Shift
import Squonk.Parser.Method.Statement

/-!
# Recovery

A script is its segments with a `;` between them. What the recovering parse returns is what they
return when each is parsed alone, unless one of them leaves something behind in the parser or goes
on behind its `;`.
-/

open squonk.tokenizer squonk.dialect

namespace squonk.parser.method

/-! ## Places -/

/-- Where a run in `source` can end and fail. -/
structure Placed (source : List Token) (s : Parser) (error : Option ParseError) (s' : Parser)
    (_trail : Trail) : Prop where
  le : s.pos ≤ s'.pos
  bound (hs : s.pos ≤ source.length) : s'.pos ≤ source.length
  offset (e : ParseError) (he : error = some e) :
    s.pos ≤ e.offset ∧ (s.pos ≤ source.length → e.offset ≤ source.length)

section Places

variable {source : List Token} {s s' s'' : Parser} {error : Option ParseError}
variable {trail rest : Trail}

theorem Placed.self (s : Parser) : Placed source s none s trail := by
  constructor <;> simp

theorem Placed.fail (s : Parser) (kind : ParseErrorKind) :
    Placed source s (some ⟨kind, s.pos⟩) s trail := by
  refine ⟨le_rfl, id, ?_⟩
  rintro e ⟨⟩
  exact ⟨le_rfl, id⟩

theorem Placed.after (first : Placed source s none s' trail)
    (second : Placed source s' error s'' rest) {whole : Trail} :
    Placed source s error s'' whole where
  le := first.le.trans second.le
  bound hs := second.bound (first.bound hs)
  offset e he := by
    obtain ⟨hle, hbound⟩ := second.offset e he
    exact ⟨first.le.trans hle, fun hs => hbound (first.bound hs)⟩

theorem Placed.advance (s : Parser) : Placed source s none (s.advance source) trail := by
  unfold Parser.advance
  split
  · next hlt => exact ⟨Nat.le_succ _, fun _ => hlt, by simp⟩
  · exact Placed.self s

theorem Placed.clause (kind : ClauseKw) (head : Token → Bool) (s : Parser) :
    (s.clause source kind head).Sat (Placed source) s := by
  unfold Parser.clause
  split
  · have hadvance := @Placed.advance source {} (s.record_clause_mark kind)
    have hpos := Parser.record_clause_mark_pos kind s
    refine ⟨hpos ▸ hadvance.le, fun hs => hadvance.bound (hpos.symm ▸ hs), ?_⟩
    intro e he
    cases he
  · exact Placed.self s

theorem Placed.expect_angle_gt (expected : String) (s : Parser) :
    (s.expect_angle_gt source expected).Sat (Placed source) s := by
  unfold Parser.expect_angle_gt
  split
  · exact ⟨le_rfl, id, by simp [error?]⟩
  · split
    · exact Placed.advance s
    · split
      · have hadvance := @Placed.advance source {} s
        exact ⟨hadvance.le, hadvance.bound, by simp [error?]⟩
      · exact Placed.fail s _

theorem placed_rule (source : List Token) (limit : Nat) :
    Rule source limit (Placed source) where
  pure s := Placed.self s
  perform action s := by
    cases action with
    | look test => exact Placed.self s
    | advance => exact Placed.advance s
    | mode mode => exact Placed.self s
    | clause kind head => exact Placed.clause kind head s
    | expect_angle_gt expected => exact Placed.expect_angle_gt expected s
    | unexpected expected => exact Placed.fail s _
  after first second := first.after second
  refused s _ := Placed.fail s _
  guarded _ inner := ⟨inner.le, inner.bound, inner.offset⟩
  set _ _ _ _ _ _ inner := ⟨inner.le, inner.bound, inner.offset⟩
  rewind _ _ _ _ _ _ _ := ⟨le_rfl, id, by simp⟩
  owned inner := ⟨inner.le, inner.bound, inner.offset⟩
  query_refused _ s _ := ⟨le_rfl, id, (@Placed.fail source {} s _).offset⟩
  query _ _ _ _ _ _ inner := ⟨inner.le, inner.bound, inner.offset⟩

end Places

/-! ## A segment and the script behind it -/

theorem Parser.ahead_append {short : List Token} {s : Parser} (hs : s.pos ≤ short.length)
    (rest : List Token) :
    s.ahead (short ++ .punctuation .Semicolon :: rest) = s.ahead short := by
  unfold Parser.ahead
  rw [List.drop_append_of_le_length hs]
  induction short.drop s.pos with
  | nil => simp
  | cons token tokens ih =>
    simp only [List.cons_append, List.takeWhile_cons, ih]

theorem Parser.advance_append {short : List Token} {s : Parser}
    (hpeek : (s.peek short).isSome) (rest : List Token) :
    s.advance (short ++ rest) = s.advance short := by
  have hlt := Parser.lt_length_of_peek hpeek
  unfold Parser.advance
  rw [if_pos hlt, if_pos (by rw [List.length_append]; omega)]

/-- Unless it goes on behind its end, a method reads a segment as it reads the script. -/
theorem alike_script (short rest : List Token) (limit : Nat) :
    Alike short (short ++ .punctuation .Semicolon :: rest) limit limit Event.is_crossed false
      (· ≤ short.length) where
  limits := le_rfl
  loose _ := rfl
  swallowed htight := by cases htight
  marks event hmark := by cases event <;> first | rfl | cases hmark
  reach :=
    { pure := fun _ => id
      perform := fun action s =>
        ((placed_rule short limit).perform action s).imp fun _ _ _ hplaced => hplaced.bound
      after := fun first second hs => second (first hs)
      refused := fun _ _ => id
      guarded := fun _ inner => inner
      set := fun _ _ _ _ _ _ inner => inner
      rewind := fun _ _ _ _ _ _ _ => id
      owned := fun inner => inner
      query_refused := fun _ _ _ => id
      query := fun _ _ _ _ _ _ inner => inner }
  perform action s hs havoids := by
    have hpeek : s.peek (short ++ .punctuation .Semicolon :: rest) = s.peek short := by
      rw [Parser.peek, Parser.ahead_append hs, Parser.peek]
    cases action with
    | look test => simp only [perform, Parser.ahead_append hs]
    | advance =>
      simp only [perform, Parser.step, hpeek] at havoids ⊢
      by_cases hsome : (s.peek short).isSome
      · rw [Parser.advance_append hsome]
      · have hcrossed := havoids.2 (.crossed s.pos) (by simp [hsome])
        cases hcrossed
    | mode mode => rfl
    | clause kind head =>
      simp only [perform, Parser.clause, hpeek]
      split
      · next hhead =>
        have hlt : s.pos < short.length :=
          Parser.lt_length_of_peek (Option.isSome_of_any hhead)
        have hpos := Parser.record_clause_mark_pos kind s
        rw [Parser.advance, Parser.advance, hpos, if_pos hlt,
          if_pos (by rw [List.length_append]; omega)]
      · rfl
    | expect_angle_gt expected =>
      simp only [perform, Parser.expect_angle_gt, hpeek]
      split
      · rfl
      · split
        · next hgt => rw [Parser.advance_append (by rw [hgt]; rfl)]
        · split
          · next hshift => rw [Parser.advance_append (by rw [hshift]; rfl)]
          · rfl
    | unexpected expected => rfl

/-- What a segment leaves in the parser is where it ended, and it does not go on behind its
end. -/
def Trail.Contained (trail : Trail) : Prop :=
  trail.Sealed ∧ trail.Balanced ∧ ∀ event ∈ trail.events, event.is_crossed = false

instance (trail : Trail) : Decidable trail.Contained :=
  inferInstanceAs (Decidable
    (trail.Sealed ∧ trail.Balanced ∧ ∀ event ∈ trail.events, event.is_crossed = false))

/-- The parser at the beginning of a segment, apart from the node ids that were given away. -/
def Parser.resumed (pos next_node_id : Nat) : Parser :=
  { Parser.new false with pos, next_node_id }

section Segments

variable {G : Grammar} {p : G.Proc} {limit frames : Nat} {before segment : List Token}
variable {next_node_id : Nat}

theorem Framed.resumed {pos : Nat} {result : Except ParseError (G.Ret p)} {s : Parser}
    {trail : Trail} (hframed : Framed (.resumed pos next_node_id) (error? result) s trail)
    (hcontained : trail.Contained) : s = .resumed s.pos s.next_node_id := by
  have hclean : trail.Traceless false :=
    ⟨hcontained.1, hcontained.2.1, .inr (hframed.uncaptured rfl)⟩
  have hback := hframed.rewind_eq hclean
  calc s = { s.rewind (.resumed pos next_node_id) false with pos := s.pos } := rfl
    _ = .resumed s.pos s.next_node_id := by rw [hback]; rfl

theorem contained_after {first : Trail} {clauses : List Clause}
    (hcontained : Trail.Contained ⟨clauses, first.events ++ []⟩) : first.Contained := by
  rw [List.append_nil] at hcontained
  exact hcontained

/-- What follows a statement decides whether it is accepted. -/
def end_statement {α : Type} (source : List Token) (a : α) (s : Parser) : Outcome (Option α) :=
  if (s.peek source).isSome then s.unexpected "`;` or end of input after a statement"
  else .done (.ok (some a)) s {}

theorem parse_next_statement_of_drop {α : Type} {source : List Token} {s : Parser}
    {token : Token} {tokens : List Token} (hdrop : source.drop s.pos = token :: tokens)
    (htoken : token ≠ .punctuation .Semicolon) (statement : Parser → Outcome α) :
    parse_next_statement source statement s = (statement s).bind (end_statement source) := by
  have hskip : s.skip_statement_separators source = s := by
    simp [Parser.skip_statement_separators, hdrop, htoken]
  have heof : s.is_eof source = false := by
    have hlength := congrArg List.length hdrop
    simp only [List.length_drop, List.length_cons] at hlength
    simp only [Parser.is_eof, decide_eq_false_iff_not]
    omega
  simp only [parse_next_statement, hskip, heof, Bool.false_eq_true, if_false]
  rfl

theorem parse_next_statement_semicolon {α : Type} {source : List Token} {s : Parser}
    {tokens : List Token} (hdrop : source.drop s.pos = .punctuation .Semicolon :: tokens)
    (statement : Parser → Outcome α) :
    parse_next_statement source statement s =
      parse_next_statement source statement { s with pos := s.pos + 1 } := by
  have hnext : source.drop (s.pos + 1) = tokens := by
    rw [← List.drop_drop, hdrop]
    rfl
  have hskip : s.skip_statement_separators source =
      Parser.skip_statement_separators source { s with pos := s.pos + 1 } := by
    simp only [Parser.skip_statement_separators, hdrop, hnext, List.takeWhile_cons,
      decide_true, if_true, List.length_cons]
    congr 1
    omega
  simp only [parse_next_statement, hskip]

variable {result : Except ParseError (Option (G.Ret p))} {s : Parser} {trail : Trail}

/-- In the script a segment is read as alone. -/
theorem parse_next_statement_script (hsegment : segment ≠ [])
    (hsemicolon : .punctuation .Semicolon ∉ segment) (rest : List Token)
    (hrun : parse_next_statement (before ++ segment) (G.exec (before ++ segment) limit frames p)
      (.resumed before.length next_node_id) = .done result s trail)
    (hcontained : trail.Contained) :
    let source := before ++ segment ++ .punctuation .Semicolon :: rest
    parse_next_statement source (G.exec source limit frames p)
      (.resumed before.length next_node_id) = .done result s trail := by
  intro source
  obtain ⟨token, tokens, rfl⟩ := List.exists_cons_of_ne_nil hsegment
  have htoken : token ≠ .punctuation .Semicolon := fun h => hsemicolon (by simp [h])
  have hbound : (Parser.resumed before.length next_node_id).pos ≤
      (before ++ token :: tokens).length := by simp [Parser.resumed]
  have halike := alike_script (before ++ token :: tokens) rest limit
  rw [parse_next_statement_of_drop (by simp [Parser.resumed]; rfl) htoken] at hrun
  rw [parse_next_statement_of_drop (by simp [source, Parser.resumed]; rfl) htoken, ← hrun]
  refine @bind_agrees _ _ Event.is_crossed false (· ≤ (before ++ token :: tokens).length) _ _ _ _ _
    ?_ hbound (halike.reach.exec G frames p _) (halike.exec G frames p _ hbound) ?_
  · rw [hrun]
    exact ⟨by simp, hcontained.2.2⟩
  intro a s' hs' _
  have hpeek : s'.peek source = s'.peek (before ++ token :: tokens) := by
    rw [Parser.peek, Parser.ahead_append hs', Parser.peek]
  simp only [end_statement, hpeek]

theorem ahead_segment (hsemicolon : .punctuation .Semicolon ∉ segment) {s : Parser}
    (hle : before.length ≤ s.pos) :
    s.ahead (before ++ segment) = (before ++ segment).drop s.pos := by
  unfold Parser.ahead
  rw [List.takeWhile_eq_self_iff]
  intro token htoken
  rw [List.drop_append, List.drop_eq_nil_of_le hle, List.nil_append] at htoken
  have hne : token ≠ .punctuation .Semicolon := fun h =>
    hsemicolon (h ▸ List.mem_of_mem_drop htoken)
  simpa using hne

/-- How the reading of a segment alone ends. -/
structure Ends (before segment : List Token) (result : Except ParseError (Option (G.Ret p)))
    (s : Parser) : Prop where
  resumed : s = .resumed s.pos s.next_node_id
  le : before.length ≤ s.pos
  bound : s.pos ≤ (before ++ segment).length
  accepted (next : Option (G.Ret p)) (hnext : result = .ok next) :
    next.isSome ∧ s.pos = (before ++ segment).length
  rejected (e : ParseError) (he : result = .error e) :
    before.length ≤ e.offset ∧ e.offset ≤ (before ++ segment).length

theorem parse_alone_ends (hsegment : segment ≠ [])
    (hsemicolon : .punctuation .Semicolon ∉ segment)
    (hrun : parse_next_statement (before ++ segment) (G.exec (before ++ segment) limit frames p)
      (.resumed before.length next_node_id) = .done result s trail)
    (hcontained : trail.Contained) : Ends before segment result s := by
  obtain ⟨token, tokens, rfl⟩ := List.exists_cons_of_ne_nil hsegment
  have htoken : token ≠ .punctuation .Semicolon := fun h => hsemicolon (by simp [h])
  rw [parse_next_statement_of_drop (by simp [Parser.resumed]; rfl) htoken] at hrun
  have hframed := (framed_rule (before ++ token :: tokens) limit).exec G frames p
    (.resumed before.length next_node_id)
  have hplaced := (placed_rule (before ++ token :: tokens) limit).exec G frames p
    (.resumed before.length next_node_id)
  have hstart : before.length ≤ (before ++ token :: tokens).length := by simp
  cases hexec : G.exec (before ++ token :: tokens) limit frames p
      (.resumed before.length next_node_id) with
  | overflow =>
    rw [hexec] at hrun
    cases hrun
  | done result' s' trail' =>
    rw [hexec] at hrun hframed hplaced
    cases result' with
    | error e =>
      cases hrun
      refine ⟨hframed.resumed hcontained, hplaced.le, hplaced.bound hstart, ?_, ?_⟩
      · intro next hnext
        cases hnext
      · intro e' he'
        cases he'
        obtain ⟨hle, hbound⟩ := hplaced.offset e rfl
        exact ⟨hle, hbound hstart⟩
    | ok a =>
      simp only [Outcome.bind, end_statement] at hrun
      split at hrun
      · cases hrun
        refine ⟨hframed.resumed (contained_after hcontained), hplaced.le, hplaced.bound hstart,
          ?_, ?_⟩
        · intro next hnext
          cases hnext
        · intro e' he'
          cases he'
          exact ⟨hplaced.le, hplaced.bound hstart⟩
      · next hpeek =>
        cases hrun
        refine ⟨hframed.resumed (contained_after hcontained), hplaced.le, hplaced.bound hstart,
          ?_, ?_⟩
        · intro next hnext
          cases hnext
          refine ⟨rfl, Nat.le_antisymm (hplaced.bound hstart) ?_⟩
          rw [Parser.peek, ahead_segment hsemicolon hplaced.le, List.head?_drop] at hpeek
          simpa using hpeek
        · intro e' he'
          cases he'

theorem Ends.drop_eq {a : G.Ret p} {rest : List Token}
    (hends : Ends before segment (.ok (some a)) s) :
    (before ++ segment ++ .punctuation .Semicolon :: rest).drop s.pos =
      .punctuation .Semicolon :: rest := by
  rw [(hends.accepted _ rfl).2, List.drop_left]

theorem Ends.behind {a : G.Ret p} (hends : Ends before segment (.ok (some a)) s) :
    { s with pos := s.pos + 1 } =
      Parser.resumed ((before ++ segment).length + 1) s.next_node_id := by
  rw [(hends.accepted _ rfl).2, hends.resumed]
  rfl

/-- Recovery goes on behind the segment. -/
theorem recover_segment (hsemicolon : .punctuation .Semicolon ∉ segment) (rest : List Token)
    (hends : Ends before segment result s) :
    s.recover_to_statement_boundary (before ++ segment ++ .punctuation .Semicolon :: rest) =
      (true, .resumed ((before ++ segment).length + 1) s.next_node_id) := by
  have hbound := hends.bound
  unfold Parser.recover_to_statement_boundary
  rw [Parser.ahead_append hbound, ahead_segment hsemicolon hends.le, List.length_drop]
  have hboundary : s.pos + ((before ++ segment).length - s.pos) = (before ++ segment).length := by
    omega
  rw [hboundary, if_pos (by simp), hends.resumed]
  rfl

theorem recover_last_segment (hsemicolon : .punctuation .Semicolon ∉ segment)
    (hends : Ends before segment result s) :
    (s.recover_to_statement_boundary (before ++ segment)).1 = false := by
  have hbound := hends.bound
  unfold Parser.recover_to_statement_boundary
  rw [ahead_segment hsemicolon hends.le, List.length_drop]
  have hboundary : s.pos + ((before ++ segment).length - s.pos) = (before ++ segment).length := by
    omega
  rw [hboundary, if_neg (by omega)]

end Segments

/-! ## A segment behind other tokens -/

theorem Trail.Contained.shift {trail trail' : Trail} {d : Nat} (hcontained : trail.Contained)
    (htrail : trail'.events = trail.events.map (·.shift d)) : trail'.Contained := by
  obtain ⟨hsealed, hbalanced, hcrossed⟩ := hcontained
  refine ⟨?_, ?_, ?_⟩
  · intro event hevent
    rw [htrail] at hevent
    obtain ⟨before, hbefore, rfl⟩ := List.mem_map.mp hevent
    exact (before.shift_is_leaked d).trans (hsealed before hbefore)
  · have hsplit : Event.is_split ∘ (·.shift d) = Event.is_split :=
      funext fun event => event.shift_is_split d
    have hclosed : Event.is_closed ∘ (·.shift d) = Event.is_closed :=
      funext fun event => event.shift_is_closed d
    unfold Trail.Balanced
    rw [htrail, List.countP_map, List.countP_map, hsplit, hclosed]
    exact hbalanced
  · intro event hevent
    rw [htrail] at hevent
    obtain ⟨before, hbefore, rfl⟩ := List.mem_map.mp hevent
    exact (before.shift_is_crossed d).trans (hcrossed before hbefore)

theorem parse_next_statement_shifted {α : Type} {before : List Token} (source : List Token)
    {statement statement' : Parser → Outcome α}
    (hstatement : ∀ s, (statement s).Shifted before.length (statement' (s.shift before.length)))
    (s : Parser) :
    (parse_next_statement source statement s).Shifted before.length
      (parse_next_statement (before ++ source) statement' (s.shift before.length)) := by
  have hskip : (s.shift before.length).skip_statement_separators (before ++ source) =
      (s.skip_statement_separators source).shift before.length := by
    simp only [Parser.skip_statement_separators, Parser.drop_shift]
    simp only [Parser.shift]
    congr 1
    omega
  have heof : ∀ s : Parser, (s.shift before.length).is_eof (before ++ source) = s.is_eof source := by
    intro s
    simp only [Parser.is_eof, Parser.shift, List.length_append]
    congr 1
    apply propext
    omega
  simp only [parse_next_statement, hskip, heof]
  split
  · exact .unchanged _ _
  · apply (hstatement _).bind
    intro a s
    rw [Parser.peek_shift]
    split
    · exact s.unexpected_shifted _
    · exact .unchanged _ s

/-! ## Scripts -/

/-- The segments with a `;` between them. -/
@[simp]
def script : List (List Token) → List Token
  | [] => []
  | [segment] => segment
  | segment :: segments => segment ++ .punctuation .Semicolon :: script segments

/-- A segment in its script, and what parsing it alone returns. -/
structure Segment (α : Type) where
  start : Nat
  stop : Nat
  result : Except ParseError (Option α)
  trail : Trail

section Scripts

variable (G : Grammar) (p : G.Proc) (limit frames : Nat)

/-- Parse each segment alone. The first of them begins at `start`, and the node ids go on. -/
def parse_segments (start next_node_id : Nat) :
    List (List Token) → Option (List (Segment (G.Ret p)))
  | [] => some []
  | segment :: segments =>
    match parse_next_statement segment (G.exec segment limit frames p) (.resumed 0 next_node_id)
      with
    | .overflow => none
    | .done result s trail =>
      (parse_segments (start + segment.length + 1) s.next_node_id segments).map
        (⟨start, start + segment.length, result, trail⟩ :: ·)

end Scripts

section Results

variable {α : Type}

def tree? : Except ParseError (Option α) → Option α
  | .ok next => next
  | .error _ => none

def Segment.tree (self : Segment α) : Option α := tree? self.result

/-- The error of a segment, at its place in the script. -/
def Segment.error (self : Segment α) : Option ParseError :=
  (error? self.result).map (·.shift self.start)

theorem tree?_shift (result : Except ParseError (Option α)) (d : Nat) :
    tree? (result.mapError (·.shift d)) = tree? result := by
  cases result <;> rfl

theorem error?_shift (result : Except ParseError (Option α)) (d : Nat) :
    error? (result.mapError (·.shift d)) = (error? result).map (·.shift d) := by
  cases result <;> rfl

/-- The trees of the segments up to the first error. -/
@[simp]
def fail_fast : List (Segment α) → Except ParseError (List α)
  | [] => .ok []
  | segment :: segments =>
    match segment.error with
    | some e => .error e
    | none => (fail_fast segments).map (segment.tree.toList ++ ·)

theorem filterMap_cons_toList {β γ : Type} (f : β → Option γ) (a : β) (l : List β) :
    (a :: l).filterMap f = (f a).toList ++ l.filterMap f := by
  cases hfa : f a with
  | none => rw [List.filterMap_cons_none hfa]; rfl
  | some b => rw [List.filterMap_cons_some hfa]; rfl

end Results

/-- The outcome is `result`, in whatever state. -/
def Outcome.Returns {α : Type} (x : Outcome α) (result : Except ParseError α) : Prop :=
  ∃ s trail, x = .done result s trail

section Collect

variable {α : Type} {source : List Token} {statement : Parser → Outcome α} {s : Parser}
variable {tokens : List Token}

theorem collect_recovered_semicolon
    (hdrop : source.drop s.pos = .punctuation .Semicolon :: tokens) (turns : Nat) :
    collect_recovered source statement turns s =
      collect_recovered source statement turns { s with pos := s.pos + 1 } := by
  cases turns with
  | zero => rfl
  | succ turns => simp only [collect_recovered, parse_next_statement_semicolon hdrop]

theorem collect_recovered_none {s' : Parser} {trail : Trail} {turns : Nat}
    (hrun : parse_next_statement source statement s = .done (.ok none) s' trail) :
    collect_recovered source statement (turns + 1) s = some ⟨[], []⟩ := by
  rw [collect_recovered, hrun]

theorem collect_recovered_statement {a : α} {s' : Parser} {trail : Trail} {turns : Nat}
    (hrun : parse_next_statement source statement s = .done (.ok (some a)) s' trail) :
    collect_recovered source statement (turns + 1) s =
      (collect_recovered source statement turns s').map fun rest =>
        { rest with statements := a :: rest.statements } := by
  rw [collect_recovered, hrun]

theorem collect_recovered_error {e : ParseError} {s' : Parser} {trail : Trail} {turns : Nat}
    (hrun : parse_next_statement source statement s = .done (.error e) s' trail) :
    collect_recovered source statement (turns + 1) s =
      match s'.recover_to_statement_boundary source with
      | (true, s') =>
        (collect_recovered source statement turns s').map fun rest =>
          { rest with errors := e :: rest.errors }
      | (false, _) => some ⟨[], [e]⟩ := by
  cases hboundary : s'.recover_to_statement_boundary source with
  | mk found s'' => cases found <;> simp only [collect_recovered, hrun, hboundary]

theorem collect_parsed_semicolon
    (hdrop : source.drop s.pos = .punctuation .Semicolon :: tokens) (turns : Nat) :
    collect_parsed source statement turns s =
      collect_parsed source statement turns { s with pos := s.pos + 1 } := by
  cases turns with
  | zero => rfl
  | succ turns => simp only [collect_parsed, parse_next_statement_semicolon hdrop]

theorem collect_parsed_none {s' : Parser} {trail : Trail} {turns : Nat}
    (hrun : parse_next_statement source statement s = .done (.ok none) s' trail) :
    (collect_parsed source statement (turns + 1) s).Returns (.ok []) := by
  rw [collect_parsed, hrun]
  exact ⟨_, _, rfl⟩

theorem collect_parsed_error {e : ParseError} {s' : Parser} {trail : Trail} {turns : Nat}
    (hrun : parse_next_statement source statement s = .done (.error e) s' trail) :
    (collect_parsed source statement (turns + 1) s).Returns (.error e) := by
  rw [collect_parsed, hrun]
  exact ⟨_, _, rfl⟩

theorem collect_parsed_statement {a : α} {s' : Parser} {trail : Trail} {turns : Nat}
    {rest : Except ParseError (List α)}
    (hrun : parse_next_statement source statement s = .done (.ok (some a)) s' trail)
    (hrest : (collect_parsed source statement turns s').Returns rest) :
    (collect_parsed source statement (turns + 1) s).Returns (rest.map (a :: ·)) := by
  obtain ⟨s'', trail', hrest⟩ := hrest
  simp only [collect_parsed, hrun, Outcome.bind, hrest]
  cases rest <;> exact ⟨_, _, rfl⟩

theorem parse_next_statement_eof (heof : source.length ≤ s.pos) :
    parse_next_statement source statement s = .done (.ok none) s {} := by
  have hskip : s.skip_statement_separators source = s := by
    simp [Parser.skip_statement_separators, List.drop_eq_nil_of_le heof]
  simp only [parse_next_statement, hskip, Parser.is_eof, heof, decide_true, if_true]

end Collect

section Scripts

variable {G : Grammar} {p : G.Proc} {limit frames : Nat}

/-- The segments of a script, and what parsing each alone returns and leaves. -/
structure Alone (G : Grammar) (p : G.Proc) (limit frames start next_node_id : Nat)
    (segments : List (List Token)) (parsed : List (Segment (G.Ret p))) : Prop where
  semicolons : ∀ segment ∈ segments, .punctuation .Semicolon ∉ segment
  parsed_eq : parse_segments G p limit frames start next_node_id segments = some parsed
  contained : ∀ segment ∈ parsed, segment.trail.Contained

theorem Alone.cons {start next_node_id : Nat} {segment : List Token}
    {segments : List (List Token)} {parsed : List (Segment (G.Ret p))}
    (alone : Alone G p limit frames start next_node_id (segment :: segments) parsed) :
    ∃ result s trail tail,
      parse_next_statement segment (G.exec segment limit frames p) (.resumed 0 next_node_id) =
        .done result s trail ∧
      trail.Contained ∧
      Alone G p limit frames (start + segment.length + 1) s.next_node_id segments tail ∧
      parsed = ⟨start, start + segment.length, result, trail⟩ :: tail := by
  have hparsed := alone.parsed_eq
  simp only [parse_segments] at hparsed
  split at hparsed
  · cases hparsed
  · next result s trail hrun =>
    obtain ⟨tail, htail, rfl⟩ := Option.map_eq_some_iff.mp hparsed
    refine ⟨result, s, trail, tail, hrun, alone.contained _ List.mem_cons_self, ?_, rfl⟩
    exact ⟨fun other h => alone.semicolons other (List.mem_cons_of_mem _ h), htail,
      fun other h => alone.contained other (List.mem_cons_of_mem _ h)⟩

theorem script_cons (before segment next : List Token) (segments : List (List Token)) :
    before ++ script (segment :: next :: segments) =
      before ++ segment ++ .punctuation .Semicolon :: script (next :: segments) := by
  simp [script]

theorem script_cons' (before segment next : List Token) (segments : List (List Token)) :
    before ++ script (segment :: next :: segments) =
      before ++ segment ++ [.punctuation .Semicolon] ++ script (next :: segments) := by
  simp [script]

theorem parse_empty_segment (next_node_id : Nat) :
    parse_next_statement [] (G.exec [] limit frames p) (.resumed 0 next_node_id) =
      .done (.ok none) (.resumed 0 next_node_id) {} :=
  parse_next_statement_eof (Nat.zero_le _)

section Turns

variable {before segment rest : List Token} {next_node_id turns : Nat}
variable {result : Except ParseError (Option (G.Ret p))} {s : Parser} {trail : Trail}

/-- Behind other tokens the segment is read as alone. -/
theorem parse_next_statement_behind (before : List Token)
    (hrun : parse_next_statement segment (G.exec segment limit frames p)
      (.resumed 0 next_node_id) = .done result s trail)
    (hcontained : trail.Contained) :
    ∃ trail', trail'.Contained ∧
      parse_next_statement (before ++ segment) (G.exec (before ++ segment) limit frames p)
        (.resumed before.length next_node_id) =
          .done (result.mapError (·.shift before.length)) (s.shift before.length) trail' := by
  have hexec : ∀ s, (G.exec segment limit frames p s).Shifted before.length
      (G.exec (before ++ segment) limit frames p (s.shift before.length)) :=
    exec_shifted G frames p
  have hshifted := parse_next_statement_shifted segment hexec (.resumed 0 next_node_id)
  rw [hrun] at hshifted
  obtain ⟨trail', htrail, hrun'⟩ := hshifted
  have hplace : (Parser.resumed 0 next_node_id).shift before.length =
      .resumed before.length next_node_id := by
    simp [Parser.resumed, Parser.shift, Parser.new]
  rw [hplace] at hrun'
  exact ⟨trail', hcontained.shift htrail, hrun'⟩

variable {statement : Parser → Outcome (G.Ret p)}

/-- The turn of either parse over a segment that another one follows. -/
theorem collect_recovered_turn (hsemicolon : .punctuation .Semicolon ∉ segment)
    (hrun : parse_next_statement (before ++ segment ++ .punctuation .Semicolon :: rest) statement
      (.resumed before.length next_node_id) = .done result s trail)
    (hends : Ends before segment result s) :
    collect_recovered (before ++ segment ++ .punctuation .Semicolon :: rest) statement (turns + 1)
      (.resumed before.length next_node_id) =
        (collect_recovered (before ++ segment ++ .punctuation .Semicolon :: rest) statement turns
          (.resumed ((before ++ segment).length + 1) s.next_node_id)).map fun recovered =>
            ⟨(tree? result).toList ++ recovered.statements,
              (error? result).toList ++ recovered.errors⟩ := by
  cases result with
  | error e =>
    rw [collect_recovered_error hrun, recover_segment hsemicolon rest hends]
    rfl
  | ok next =>
    obtain ⟨a, rfl⟩ := Option.isSome_iff_exists.mp (hends.accepted next rfl).1
    rw [collect_recovered_statement hrun, collect_recovered_semicolon hends.drop_eq, hends.behind]
    rfl

theorem collect_parsed_turn {parsed : Except ParseError (List (G.Ret p))}
    (hrun : parse_next_statement (before ++ segment ++ .punctuation .Semicolon :: rest) statement
      (.resumed before.length next_node_id) = .done result s trail)
    (hends : Ends before segment result s)
    (hrest : (collect_parsed (before ++ segment ++ .punctuation .Semicolon :: rest) statement turns
      (.resumed ((before ++ segment).length + 1) s.next_node_id)).Returns parsed) :
    (collect_parsed (before ++ segment ++ .punctuation .Semicolon :: rest) statement (turns + 1)
      (.resumed before.length next_node_id)).Returns
        (match error? result with
        | some e => .error e
        | none => parsed.map ((tree? result).toList ++ ·)) := by
  cases result with
  | error e => exact collect_parsed_error hrun
  | ok next =>
    obtain ⟨a, rfl⟩ := Option.isSome_iff_exists.mp (hends.accepted next rfl).1
    rw [← hends.behind, ← collect_parsed_semicolon hends.drop_eq] at hrest
    exact collect_parsed_statement hrun hrest

/-- The last turn of either parse. -/
theorem collect_recovered_last (hsemicolon : .punctuation .Semicolon ∉ segment)
    (hrun : parse_next_statement (before ++ segment) statement
      (.resumed before.length next_node_id) = .done result s trail)
    (hends : Ends before segment result s) :
    collect_recovered (before ++ segment) statement (turns + 2)
      (.resumed before.length next_node_id) =
        some ⟨(tree? result).toList, (error? result).toList⟩ := by
  cases result with
  | error e =>
    have hlast := recover_last_segment hsemicolon hends
    cases hboundary : s.recover_to_statement_boundary (before ++ segment) with
    | mk found s' =>
      rw [hboundary] at hlast
      cases hlast
      rw [collect_recovered_error hrun, hboundary]
      rfl
  | ok next =>
    obtain ⟨hsome, hend⟩ := hends.accepted next rfl
    obtain ⟨a, rfl⟩ := Option.isSome_iff_exists.mp hsome
    rw [collect_recovered_statement hrun,
      collect_recovered_none (parse_next_statement_eof hend.ge)]
    rfl

theorem collect_parsed_last
    (hrun : parse_next_statement (before ++ segment) statement
      (.resumed before.length next_node_id) = .done result s trail)
    (hends : Ends before segment result s) :
    (collect_parsed (before ++ segment) statement (turns + 2)
      (.resumed before.length next_node_id)).Returns
        (match error? result with
        | some e => .error e
        | none => (Except.ok []).map ((tree? result).toList ++ ·)) := by
  cases result with
  | error e => exact collect_parsed_error hrun
  | ok next =>
    obtain ⟨hsome, hend⟩ := hends.accepted next rfl
    obtain ⟨a, rfl⟩ := Option.isSome_iff_exists.mp hsome
    exact collect_parsed_statement hrun (collect_parsed_none (parse_next_statement_eof hend.ge))

end Turns

/-- What either parse makes of a script from one of its segments on. -/
theorem collect_segments {segments : List (List Token)} (hsegments : segments ≠ [])
    (before : List Token) {next_node_id : Nat} {parsed : List (Segment (G.Ret p))}
    (alone : Alone G p limit frames before.length next_node_id segments parsed) {turns : Nat}
    (hturns : segments.countP (· ≠ []) < turns) :
    let source := before ++ script segments
    collect_recovered source (G.exec source limit frames p) turns
        (.resumed before.length next_node_id) =
      some ⟨parsed.filterMap Segment.tree, parsed.filterMap Segment.error⟩ ∧
    (collect_parsed source (G.exec source limit frames p) turns
        (.resumed before.length next_node_id)).Returns (fail_fast parsed) := by
  intro source
  induction segments generalizing before next_node_id parsed turns with
  | nil => exact absurd rfl hsegments
  | cons segment segments ih =>
    obtain ⟨result, s, trail, tail, hrun, hcontained, hrest, rfl⟩ := alone.cons
    have hsemicolon := alone.semicolons segment List.mem_cons_self
    obtain ⟨turns, rfl⟩ := Nat.exists_eq_succ_of_ne_zero (Nat.ne_zero_of_lt hturns)
    rw [List.countP_cons] at hturns
    simp only [filterMap_cons_toList, fail_fast, Segment.tree, Segment.error]
    rw [← tree?_shift result before.length, ← error?_shift result before.length]
    cases segments with
    | nil =>
      obtain rfl : [] = tail := Option.some.inj hrest.parsed_eq
      by_cases hempty : segment = []
      · subst hempty
        rw [parse_empty_segment] at hrun
        cases hrun
        have heof : source.length ≤ before.length := by simp [source, script]
        exact ⟨collect_recovered_none (parse_next_statement_eof heof),
          collect_parsed_none (parse_next_statement_eof heof)⟩
      · obtain ⟨trail', hcontained', hrun'⟩ := parse_next_statement_behind before hrun hcontained
        have hends := parse_alone_ends hempty hsemicolon hrun' hcontained'
        rw [if_pos (by simpa using hempty)] at hturns
        obtain ⟨turns, rfl⟩ := Nat.exists_eq_succ_of_ne_zero (n := turns) (by omega)
        constructor
        · refine (collect_recovered_last hsemicolon hrun' hends).trans ?_
          simp only [List.filterMap_nil, List.append_nil]
        · exact collect_parsed_last hrun' hends
    | cons next segments =>
      have hsource : source = before ++ segment ++ .punctuation .Semicolon ::
          script (next :: segments) := script_cons before segment next segments
      have hlength : before.length + segment.length + 1 =
          (before ++ segment ++ [Token.punctuation .Semicolon]).length := by
        simp only [List.length_append, List.length_singleton]
      rw [hlength] at hrest
      by_cases hempty : segment = []
      · subst hempty
        rw [parse_empty_segment] at hrun
        cases hrun
        obtain ⟨hrecovered, hparsed⟩ :=
          @ih (by simp) _ _ _ hrest (turns + 1) (by simpa using hturns)
        rw [← script_cons', ← hlength] at hrecovered hparsed
        have hdrop : source.drop (Parser.resumed before.length next_node_id).pos =
            .punctuation .Semicolon :: script (next :: segments) := by
          rw [hsource, List.append_nil]
          exact List.drop_left
        rw [collect_recovered_semicolon hdrop, collect_parsed_semicolon hdrop]
        refine ⟨hrecovered, ?_⟩
        have hkept : (fail_fast tail).map (([] : List (G.Ret p)) ++ ·) = fail_fast tail := by
          cases fail_fast tail <;> rfl
        exact hkept.symm ▸ hparsed
      · obtain ⟨trail', hcontained', hrun'⟩ := parse_next_statement_behind before hrun hcontained
        have hends := parse_alone_ends hempty hsemicolon hrun' hcontained'
        rw [if_pos (by simpa using hempty)] at hturns
        have hscript := parse_next_statement_script hempty hsemicolon (script (next :: segments))
          hrun' hcontained'
        obtain ⟨hrecovered, hparsed⟩ := @ih (by simp) _ _ _ hrest turns (by omega)
        rw [← script_cons', ← hlength, ← List.length_append] at hrecovered hparsed
        rw [hsource]
        constructor
        · refine (collect_recovered_turn hsemicolon hscript hends).trans ?_
          rw [← hsource]
          exact congrArg (Option.map _) hrecovered
        · apply collect_parsed_turn hscript hends
          rw [← hsource]
          exact hparsed

theorem Alone.inside {start next_node_id : Nat} {segments : List (List Token)}
    {parsed : List (Segment (G.Ret p))}
    (alone : Alone G p limit frames start next_node_id segments parsed) :
    ∀ segment ∈ parsed, ∀ e, segment.error = some e →
      segment.start ≤ e.offset ∧ e.offset ≤ segment.stop := by
  induction segments generalizing start next_node_id parsed with
  | nil =>
    obtain rfl : [] = parsed := Option.some.inj alone.parsed_eq
    simp
  | cons segment segments ih =>
    have hsemicolon := alone.semicolons segment List.mem_cons_self
    obtain ⟨result, s, trail, tail, hrun, hcontained, hrest, rfl⟩ := alone.cons
    intro other hother e he
    obtain rfl | hother := List.mem_cons.mp hother
    · by_cases hempty : segment = []
      · subst hempty
        rw [parse_empty_segment] at hrun
        cases hrun
        cases he
      · obtain ⟨e, herror, rfl⟩ := Option.map_eq_some_iff.mp he
        have hends : Ends [] segment result s :=
          parse_alone_ends hempty hsemicolon hrun hcontained
        cases result with
        | ok next => cases herror
        | error e' =>
          cases herror
          have hbound := (hends.rejected e rfl).2
          rw [List.nil_append] at hbound
          simp only [ParseError.shift]
          omega
    · exact ih hrest other hother e he

theorem countP_le_script (segments : List (List Token)) :
    segments.countP (· ≠ []) ≤ (script segments).length := by
  induction segments with
  | nil => exact Nat.zero_le _
  | cons segment segments ih =>
    rw [List.countP_cons]
    have hone : (if decide (segment ≠ []) = true then 1 else 0) ≤ segment.length := by
      cases segment <;> simp
    cases segments with
    | nil => simpa [script] using hone
    | cons next segments =>
      simp only [script, List.length_append, List.length_cons] at ih ⊢
      omega

theorem error?_fail_fast {α : Type} (parsed : List (Segment α)) :
    error? (fail_fast parsed) = (parsed.filterMap Segment.error).head? := by
  induction parsed with
  | nil => rfl
  | cons segment parsed ih =>
    rw [fail_fast, filterMap_cons_toList]
    cases segment.error with
    | some e => rfl
    | none =>
      rw [Option.toList_none, List.nil_append, ← ih]
      cases fail_fast parsed <;> rfl

theorem fail_fast_ok {α : Type} {parsed : List (Segment α)}
    (hnone : parsed.filterMap Segment.error = []) :
    fail_fast parsed = .ok (parsed.filterMap Segment.tree) := by
  induction parsed with
  | nil => rfl
  | cons segment parsed ih =>
    rw [filterMap_cons_toList, List.append_eq_nil_iff] at hnone
    obtain ⟨hsegment, hrest⟩ := hnone
    rw [fail_fast, filterMap_cons_toList, Option.toList_eq_nil_iff.mp hsegment, ih hrest]
    rfl

end Scripts

/-- `SELECT CAST(a AS ARRAY<INT64` with what closes the type and `)` behind it. -/
def select_cast_array (close : Operator) : List Token :=
  [.keyword .Select, .word "cast".toList, .lparen, .word ['a'], .keyword .As, .keyword .Array,
    .operator .Lt, .word "int64".toList, .operator close, .rparen]

end squonk.parser.method
