import Mathlib.Data.List.Basic
import Squonk.Dialect.Presets
import Squonk.Parser.Method.Grammar
import Squonk.Parser.Method.Runs

/-!
# What a run leaves behind

The guard counter and the mode flags are back behind every run. The pending half of a `>>` and
the clause marks are not: what is left of them is counted by the events of the run, and a rewind
puts back the place only.
-/

open squonk.tokenizer squonk.dialect

namespace squonk.parser.method

/-- No query left its flags otherwise than it found them. -/
def Trail.Sealed (trail : Trail) : Prop := ∀ event ∈ trail.events, event.is_leaked = false

/-- Every `>>` that was split was closed by its second half too. -/
def Trail.Balanced (trail : Trail) : Prop :=
  trail.events.countP Event.is_split = trail.events.countP Event.is_closed

/-- No clause keyword is recorded that was not dropped again. -/
def Trail.Unrecorded (trail : Trail) : Prop :=
  trail.events.countP Event.is_recorded = 0

instance (trail : Trail) : Decidable trail.Sealed :=
  inferInstanceAs (Decidable (∀ event ∈ trail.events, event.is_leaked = false))

instance (trail : Trail) : Decidable trail.Balanced :=
  inferInstanceAs (Decidable (_ = _))

instance (trail : Trail) : Decidable trail.Unrecorded :=
  inferInstanceAs (Decidable (_ = _))

/-- What stays of the state `s` behind a run that ends in `s'`. -/
structure Framed (s : Parser) (_error : Option ParseError) (s' : Parser) (trail : Trail) : Prop where
  depth : s'.recursion_depth = s.recursion_depth
  modes (mode : Mode) (hmode : mode ≠ .InConnectBy ∨ trail.Sealed) : s'.modes mode = s.modes mode
  grouping (hsealed : trail.Sealed) : s'.paren_query_grouping = s.paren_query_grouping
  angle : s'.angle_gt_pending + trail.events.countP Event.is_closed =
    s.angle_gt_pending + trail.events.countP Event.is_split
  marks : s.clause_marks <+: s'.clause_marks
  recorded : s'.clause_marks.length =
    s.clause_marks.length + trail.events.countP Event.is_recorded
  capture : s'.capture_clause_marks = s.capture_clause_marks
  uncaptured (hoff : s.capture_clause_marks = false) : trail.Unrecorded

/-- The condition under which nothing of a branch stays behind its rewind. -/
def Trail.Traceless (trail : Trail) (truncating : Bool) : Prop :=
  trail.Sealed ∧ trail.Balanced ∧ (truncating = true ∨ trail.Unrecorded)

theorem Trail.sealed_append {clauses : List Clause} {first second : List Event} :
    Trail.Sealed ⟨clauses, first ++ second⟩ ↔
      Trail.Sealed ⟨clauses, first⟩ ∧ Trail.Sealed ⟨clauses, second⟩ := by
  simp only [Trail.Sealed, List.mem_append, or_imp, forall_and]

theorem Parser.advance_clause_marks (source : List Token) (s : Parser) :
    (s.advance source).clause_marks = s.clause_marks := by
  unfold Parser.advance
  split <;> rfl

theorem Parser.advance_frame (source : List Token) (s : Parser) {error : Option ParseError} :
    Framed s error (s.advance source) {} := by
  unfold Parser.advance
  split <;> constructor <;> simp [Trail.Unrecorded]

namespace Framed

variable {s s' s'' : Parser} {error : Option ParseError} {trail rest : Trail}

theorem self (s : Parser) : Framed s error s {} := by
  constructor <;> simp [Trail.Unrecorded]

/-- Events that none of the counts is about may be added. -/
theorem with_event (framed : Framed s error s' trail) {event : Event}
    (hevent : event.is_leaked = false ∧ event.is_closed = false ∧ event.is_split = false ∧
      event.is_recorded = false) :
    Framed s error s' { trail with events := event :: trail.events } where
  depth := framed.depth
  modes mode hmode :=
    framed.modes mode (hmode.imp id fun hsealed e he => hsealed e (List.mem_cons_of_mem _ he))
  grouping hsealed := framed.grouping fun e he => hsealed e (List.mem_cons_of_mem _ he)
  angle := by
    rw [List.countP_cons_of_neg (by simp [hevent]), List.countP_cons_of_neg (by simp [hevent])]
    exact framed.angle
  marks := framed.marks
  recorded := by
    rw [List.countP_cons_of_neg (by simp [hevent])]
    exact framed.recorded
  capture := framed.capture
  uncaptured hoff := by
    rw [Trail.Unrecorded, List.countP_cons_of_neg (by simp [hevent])]
    exact framed.uncaptured hoff

theorem after (first : Framed s none s' trail) (second : Framed s' error s'' rest) :
    Framed s error s'' ⟨trail.clauses ++ rest.clauses, trail.events ++ rest.events⟩ where
  depth := second.depth.trans first.depth
  modes mode hmode := by
    have hsplit : (mode ≠ .InConnectBy ∨ rest.Sealed) ∧ (mode ≠ .InConnectBy ∨ trail.Sealed) := by
      rcases hmode with hmode | hsealed
      · exact ⟨.inl hmode, .inl hmode⟩
      · obtain ⟨hfirst, hsecond⟩ := Trail.sealed_append.mp hsealed
        exact ⟨.inr hsecond, .inr hfirst⟩
    exact (second.modes mode hsplit.1).trans (first.modes mode hsplit.2)
  grouping hsealed := by
    obtain ⟨hfirst, hsecond⟩ := Trail.sealed_append.mp hsealed
    exact (second.grouping hsecond).trans (first.grouping hfirst)
  angle := by
    have hfirst := first.angle
    have hsecond := second.angle
    simp only [List.countP_append]
    omega
  marks := first.marks.trans second.marks
  recorded := by
    have hfirst := first.recorded
    have hsecond := second.recorded
    simp only [List.countP_append]
    omega
  capture := second.capture.trans first.capture
  uncaptured hoff := by
    have hfirst := first.uncaptured hoff
    have hsecond := second.uncaptured (first.capture.trans hoff)
    unfold Trail.Unrecorded at hfirst hsecond ⊢
    simp only [List.countP_append, hfirst, hsecond]

end Framed

theorem step_framed (source : List Token) (s : Parser) : (s.step source).Sat Framed s := by
  have hframe := @Parser.advance_frame source s none
  unfold Parser.step
  split
  · exact hframe
  · exact hframe.with_event ⟨rfl, rfl, rfl, rfl⟩

theorem expect_angle_gt_framed (source : List Token) (expected : String) (s : Parser) :
    (s.expect_angle_gt source expected).Sat Framed s := by
  have hframe := @Parser.advance_frame source s none
  unfold Parser.expect_angle_gt
  split
  · next hpending =>
    refine ⟨rfl, fun _ _ => rfl, fun _ => rfl, ?_, List.prefix_refl _, rfl, rfl, fun _ => rfl⟩
    simp only [List.countP_cons, List.countP_nil, Event.is_closed, Event.is_split, if_true,
      Bool.false_eq_true, if_false]
    omega
  · next hnone =>
    split
    · exact hframe
    · split
      · refine ⟨hframe.depth, fun mode _ => hframe.modes mode (.inr (by simp [Trail.Sealed])),
          fun _ => hframe.grouping (by simp [Trail.Sealed]), ?_, hframe.marks, hframe.recorded,
          hframe.capture, fun _ => rfl⟩
        have hangle := hframe.angle
        simp only [List.countP_cons, List.countP_nil, Event.is_closed, Event.is_split, if_true,
          Bool.false_eq_true, if_false]
        omega
      · exact Framed.self s

theorem record_clause_mark_framed (kind : ClauseKw) (s : Parser) :
    Framed s none (s.record_clause_mark kind)
      { clauses := [.keyword kind s.pos]
        events := if s.capture_clause_marks then [.recorded kind s.pos] else [] } := by
  unfold Parser.record_clause_mark
  split
  · next hon =>
    refine ⟨rfl, fun _ _ => rfl, fun _ => rfl, rfl, List.prefix_append _ _, ?_, rfl, fun hoff => ?_⟩
    · simp [Event.is_recorded]
    · rw [hoff] at hon
      cases hon
  · exact ⟨rfl, fun _ _ => rfl, fun _ => rfl, rfl, List.prefix_refl _, rfl, rfl, fun _ => rfl⟩

theorem clause_framed (source : List Token) (kind : ClauseKw) (head : Token → Bool)
    (s : Parser) : (s.clause source kind head).Sat Framed s := by
  unfold Parser.clause
  split
  · have hframed := (record_clause_mark_framed kind s).after
      (@Parser.advance_frame source (s.record_clause_mark kind) none)
    simp only [List.append_nil] at hframed
    exact hframed
  · exact Framed.self s

theorem countP_abandon_of_not_mark (test : Event → Bool)
    (htest : ∀ event, test event → event.is_mark = false)
    (hswallowed : ∀ offset, test (.swallowed offset) = false) (s s' : Parser)
    (truncating limited : Bool) (events : List Event) :
    (abandon s s' truncating limited events).events.countP test = events.countP test := by
  have hfilter : (events.filter (!·.is_mark)).countP test = events.countP test := by
    rw [List.countP_filter]
    apply List.countP_congr
    intro event _
    have hevent := htest event
    simp only [Bool.and_eq_true, Bool.not_eq_true']
    exact ⟨And.left, fun h => ⟨h, hevent h⟩⟩
  have hstale (marks : Nat) : test (.stale marks) = false := by
    by_contra hmark
    have hevent := htest (.stale marks) (by simpa using hmark)
    cases hevent
  simp only [abandon, List.countP_append]
  cases truncating <;> cases limited <;> simp only [cond_true, cond_false, hfilter] <;> split <;>
    simp [hswallowed, hstale]

theorem take_length_of_start {marks more : List ClauseMark} (hstart : marks <+: more) :
    more.take marks.length = marks := by
  obtain ⟨rest, rfl⟩ := hstart
  simp

theorem patch_clause_marks_start {marks more : List ClauseMark} (hstart : marks <+: more)
    (owner : Nat) : marks <+: patch_clause_marks more marks.length owner := by
  rw [patch_clause_marks, take_length_of_start hstart]
  exact List.prefix_append _ _

theorem patch_clause_marks_length (marks : List ClauseMark) (start owner : Nat) :
    (patch_clause_marks marks start owner).length = marks.length := by
  simp only [patch_clause_marks, List.length_append, List.length_take, List.length_map,
    List.length_drop]
  omega

theorem countP_recorded_filter (events : List Event) :
    (events.filter (!·.is_mark)).countP Event.is_recorded = 0 := by
  rw [List.countP_eq_zero]
  intro event hevent
  rw [List.mem_filter] at hevent
  cases event <;> simp_all [Event.is_mark, Event.is_recorded]

theorem countP_recorded_abandon (s s' : Parser) (truncating limited : Bool)
    (events : List Event) :
    (abandon s s' truncating limited events).events.countP Event.is_recorded =
      bif truncating then 0 else events.countP Event.is_recorded := by
  simp only [abandon, List.countP_append]
  cases truncating <;> cases limited <;>
    simp only [cond_true, cond_false, countP_recorded_filter] <;> split <;>
    simp [Event.is_recorded]

theorem countP_leaked {test : Event → Bool} {offset : Nat} (htest : test (.leaked offset) = false)
    {condition : Prop} [Decidable condition] :
    (if condition then [Event.leaked offset] else []).countP test = 0 := by
  split
  · simp [htest]
  · rfl

theorem sealed_of_abandon {s s' : Parser} {truncating limited : Bool} {trail : Trail}
    (hsealed : (abandon s s' truncating limited trail.events).Sealed) : trail.Sealed := by
  have hcount := countP_abandon_of_not_mark Event.is_leaked
    (by intro event; cases event <;> simp [Event.is_leaked, Event.is_mark])
    (fun _ => rfl) s s' truncating limited trail.events
  have hzero : (abandon s s' truncating limited trail.events).events.countP Event.is_leaked = 0 := by
    rw [List.countP_eq_zero]
    intro event hevent
    simp [hsealed event hevent]
  rw [hzero] at hcount
  intro event hevent
  have hnone := List.countP_eq_zero.mp hcount.symm event hevent
  simpa using hnone

/-- Every step leaves of the state what a frame says. -/
theorem framed_rule (source : List Token) (limit : Nat) : Rule source limit Framed where
  pure s := Framed.self s
  perform action s := by
    cases action with
    | look test => exact Framed.self s
    | advance => exact step_framed source s
    | mode mode => exact Framed.self s
    | clause kind head => exact clause_framed source kind head s
    | expect_angle_gt expected => exact expect_angle_gt_framed source expected s
    | unexpected expected => exact Framed.self s
  after first second := first.after second
  refused s _ := Framed.self s
  guarded _ inner :=
    { depth := by
        have hdepth := inner.depth
        simp only at hdepth ⊢
        omega
      modes := inner.modes
      grouping := inner.grouping
      angle := inner.angle
      marks := inner.marks
      recorded := inner.recorded
      capture := inner.capture
      uncaptured := inner.uncaptured }
  set mode value {s s' _ trail} inner :=
    { depth := inner.depth
      modes := by
        intro other hother
        simp only [Parser.set_mode]
        split
        · next heq => rw [heq]
        · next hne =>
          have hinner := inner.modes other hother
          simpa only [Parser.set_mode, hne, if_false] using hinner
      grouping := inner.grouping
      angle := inner.angle
      marks := inner.marks
      recorded := inner.recorded
      capture := inner.capture
      uncaptured := inner.uncaptured }
  rewind truncating limited {s s' _ trail} inner :=
    { depth := inner.depth
      modes := fun mode hmode => inner.modes mode (hmode.imp id sealed_of_abandon)
      grouping := fun hsealed => inner.grouping (sealed_of_abandon hsealed)
      angle := by
        rw [countP_abandon_of_not_mark Event.is_closed
            (by intro event; cases event <;> simp [Event.is_closed, Event.is_mark]) (fun _ => rfl),
          countP_abandon_of_not_mark Event.is_split
            (by intro event; cases event <;> simp [Event.is_split, Event.is_mark]) (fun _ => rfl)]
        exact inner.angle
      marks := by
        cases truncating
        · exact inner.marks
        · simp only [Parser.rewind, cond_true, take_length_of_start inner.marks]
          exact List.prefix_refl _
      recorded := by
        rw [countP_recorded_abandon]
        cases truncating
        · exact inner.recorded
        · simp only [Parser.rewind, cond_true, take_length_of_start inner.marks, Nat.add_zero]
      capture := inner.capture
      uncaptured := by
        intro hoff
        rw [Trail.Unrecorded, countP_recorded_abandon, inner.uncaptured hoff]
        cases truncating <;> rfl }
  owned inner :=
    { depth := inner.depth
      modes := inner.modes
      grouping := inner.grouping
      angle := inner.angle
      marks := patch_clause_marks_start inner.marks _
      recorded := by
        rw [patch_clause_marks_length]
        exact inner.recorded
      capture := inner.capture
      uncaptured := inner.uncaptured }
  query_refused grouping s _ :=
    { depth := rfl
      modes := by
        intro mode hmode
        simp only [Parser.arm_query, Parser.set_mode]
        split
        · next heq =>
          have hsealed := hmode.resolve_left (not_not_intro heq)
          by_contra hset
          have hon : s.modes .InConnectBy = true := by
            rw [heq] at hset
            simpa using Ne.symm hset
          apply absurd (hsealed (.leaked s.pos))
          simp [Event.is_leaked, hon]
        · rfl
      grouping := by
        intro hsealed
        by_contra hset
        apply absurd (hsealed (.leaked s.pos))
        simp [Event.is_leaked, hset]
      angle := by
        rw [countP_leaked rfl, countP_leaked rfl]
        rfl
      marks := List.prefix_refl _
      recorded := by
        rw [countP_leaked rfl]
        rfl
      capture := rfl
      uncaptured := fun _ => countP_leaked rfl }
  query grouping {s s' _ trail} _ inner := by
    have hsealed (h : Trail.Sealed
        ⟨trail.clauses, (if s.paren_query_grouping then [.leaked s.pos] else []) ++
          trail.events⟩) : s.paren_query_grouping = false ∧ trail.Sealed := by
      obtain ⟨hleaked, htrail⟩ := Trail.sealed_append.mp h
      refine ⟨?_, htrail⟩
      by_contra hset
      apply absurd (hleaked (.leaked s.pos))
      simp [Event.is_leaked, hset]
    exact
      { depth := by
          have hdepth := inner.depth
          simp only at hdepth ⊢
          omega
        modes := by
          intro mode hmode
          simp only [Parser.set_mode]
          split
          · next heq => rw [heq]
          · next hne =>
            have hinner := inner.modes mode (.inl hne)
            simpa only [Parser.arm_query, Parser.set_mode, hne, if_false] using hinner
        grouping := by
          intro h
          obtain ⟨hoff, htrail⟩ := hsealed h
          rw [hoff]
          exact inner.grouping htrail
        angle := by
          have hangle := inner.angle
          simp only [List.countP_append]
          rw [countP_leaked rfl, countP_leaked rfl, Nat.zero_add, Nat.zero_add]
          exact hangle
        marks := inner.marks
        recorded := by
          have hrecorded := inner.recorded
          simp only [List.countP_append]
          rw [countP_leaked rfl, Nat.zero_add]
          exact hrecorded
        capture := inner.capture
        uncaptured := by
          intro hoff
          rw [Trail.Unrecorded, List.countP_append, countP_leaked rfl, Nat.zero_add]
          exact inner.uncaptured hoff }

/-- The guard counter is back at its value behind every run, accepted or rejected. -/
theorem exec_recursion_depth (G : Grammar) (source : List Token) (limit frames : Nat)
    (p : G.Proc) {s s' : Parser} {result : Except ParseError (G.Ret p)} {trail : Trail}
    (hrun : G.exec source limit frames p s = .done result s' trail) :
    s'.recursion_depth = s.recursion_depth := by
  have hframed := (framed_rule source limit).exec G frames p s
  rw [hrun] at hframed
  exact hframed.depth

section Speculation

variable {G : Grammar} {source : List Token} {limit frames : Nat} {p : G.Proc} {s s' : Parser}
variable {result : Except ParseError (G.Ret p)} {trail : Trail} {truncating : Bool}

theorem Framed.rewind_eq (hframed : Framed s (error? result) s' trail)
    (hclean : trail.Traceless truncating) :
    s'.rewind s truncating = { s with next_node_id := s'.next_node_id } := by
  obtain ⟨hsealed, hbalanced, hmarks⟩ := hclean
  have hangle := hframed.angle
  have hmodes : s'.modes = s.modes := by
    funext mode
    exact hframed.modes mode (.inr hsealed)
  have hkept : (bif truncating then s'.clause_marks.take s.clause_marks.length
      else s'.clause_marks) = s.clause_marks := by
    cases truncating with
    | true => exact take_length_of_start hframed.marks
    | false =>
      have hnone := hmarks.resolve_left Bool.false_ne_true
      have hlength := hframed.recorded
      rw [hnone] at hlength
      exact (hframed.marks.eq_of_length hlength.symm).symm
  simp only [Parser.rewind, hkept, hmodes, hframed.depth, hframed.grouping hsealed,
    hframed.capture]
  congr 1
  unfold Trail.Balanced at hbalanced
  omega

theorem Framed.balanced_of_rewind_eq (hframed : Framed s (error? result) s' trail)
    (hback : s'.rewind s truncating = { s with next_node_id := s'.next_node_id }) :
    trail.Balanced ∧ (truncating = true ∨ trail.Unrecorded) := by
  have hangle := hframed.angle
  have hlength := hframed.recorded
  have hpending := congrArg Parser.angle_gt_pending hback
  change s'.angle_gt_pending = s.angle_gt_pending at hpending
  refine ⟨by unfold Trail.Balanced; omega, ?_⟩
  cases truncating with
  | true => exact .inl rfl
  | false =>
    have hmarks := congrArg Parser.clause_marks hback
    change s'.clause_marks = s.clause_marks at hmarks
    rw [hmarks] at hlength
    exact .inr (by unfold Trail.Unrecorded; omega)

/-- A branch that is rewound leaves nothing behind but node ids if it closed what it split,
recorded no clause keyword that stays and leaked no flag, and what is parsed next is what would
have been parsed without it. A branch that leaves nothing meets the first two. -/
theorem rewind_leaves_no_trace (hrun : G.exec source limit frames p s = .done result s' trail) :
    (trail.Traceless truncating →
      s'.rewind s truncating = { s with next_node_id := s'.next_node_id } ∧
      ∀ (α : Type) (k : Option (G.Ret p) → Method G.Ret α), (error? result).isSome →
        (Method.call (.attempt truncating) p k).run source limit (G.exec source limit frames) s =
          ((k none).run source limit (G.exec source limit frames)
            { s with next_node_id := s'.next_node_id }).after
            (abandon s s' truncating (is_limit result) trail.events)) ∧
    (s'.rewind s truncating = { s with next_node_id := s'.next_node_id } →
      trail.Balanced ∧ (truncating = true ∨ trail.Unrecorded)) := by
  have hframed := (framed_rule source limit).exec G frames p s
  rw [hrun] at hframed
  refine ⟨fun hclean => ?_, hframed.balanced_of_rewind_eq⟩
  have hback := hframed.rewind_eq hclean
  refine ⟨hback, fun α k hfailed => ?_⟩
  cases result with
  | ok a => cases hfailed
  | error e =>
    rw [← hback]
    simp only [Method.run, enter, attempt, hrun]
    rfl

end Speculation

/-- The subquery of the group `((SELECT a FROM t) + 1)` is read as a query that holds the group,
from its second parenthesis on. The branch is given up, but a clause mark stays. -/
theorem rewind_leaves_clause_mark :
    let source : List Token :=
      [.keyword .Select, .lparen, .lparen, .keyword .Select, .word ['a'], .keyword .From,
        .word ['t'], .rparen, .operator .Plus, .number ['1'], .rparen]
    let s := { Parser.new true with pos := 2, recursion_depth := 3 }
    ∃ e s' trail,
      (sql FeatureSet.POSTGRES .ANSI).exec source 128 40 .try_parenthesized_query s =
        .done (.error e) s' trail ∧
      (s'.rewind s false).clause_marks = [⟨some 1, .From, 5⟩] ∧ s.clause_marks = [] := by
  intro source s
  have hrun : ((sql FeatureSet.POSTGRES .ANSI).exec source 128 40 .try_parenthesized_query
      s).ended.map (fun (result, s, _) => (result.isOk, s.clause_marks)) =
        some (false, [⟨some 1, .From, 5⟩]) := by
    decide +kernel
  obtain ⟨result, s', trail, hrun, hseen⟩ := Outcome.of_ended hrun
  obtain ⟨hok, hmarks⟩ := Prod.mk.inj hseen
  cases result with
  | ok query => cases hok
  | error e => exact ⟨e, s', trail, hrun, hmarks, rfl⟩

/-- Where the group holds no clause, `((a) + 1)`, nothing stays. -/
theorem rewind_leaves_no_trace_group :
    let source : List Token :=
      [.keyword .Select, .lparen, .lparen, .word ['a'], .rparen, .operator .Plus, .number ['1'],
        .rparen]
    let s := { Parser.new true with pos := 2, recursion_depth := 3 }
    ∃ result s' trail,
      (sql FeatureSet.POSTGRES .ANSI).exec source 128 40 .try_parenthesized_query s =
        .done result s' trail ∧
      s'.rewind s false = { s with next_node_id := s'.next_node_id } := by
  intro source s
  have hrun : ((sql FeatureSet.POSTGRES .ANSI).exec source 128 40 .try_parenthesized_query
      s).ended.map (fun (_, _, trail) => trail.events) = some [] := by
    decide +kernel
  obtain ⟨result, s', trail, hrun, hevents⟩ := Outcome.of_ended hrun
  have hclean : trail.Traceless false := by
    simp only at hevents
    simp [Trail.Traceless, Trail.Sealed, Trail.Balanced, Trail.Unrecorded, hevents]
  exact ⟨result, s', trail, hrun, ((rewind_leaves_no_trace hrun).1 hclean).1⟩

end squonk.parser.method
