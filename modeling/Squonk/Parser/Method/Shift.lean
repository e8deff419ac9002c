import Squonk.Parser.Method.Language

/-!
# Runs at another place

A method sees the tokens ahead of it, never its place among them. Behind other tokens it does what
it does at the beginning of a source, and only the offsets are others.
-/

open squonk.tokenizer

namespace squonk.parser.method

def ClauseMark.shift (self : ClauseMark) (d : Nat) : ClauseMark :=
  { self with offset := self.offset + d }

def Parser.shift (self : Parser) (d : Nat) : Parser :=
  { self with pos := self.pos + d, clause_marks := self.clause_marks.map (·.shift d) }

def ParseError.shift (self : ParseError) (d : Nat) : ParseError :=
  { self with offset := self.offset + d }

def Event.shift (self : Event) (d : Nat) : Event :=
  match self with
  | recorded kind offset => recorded kind (offset + d)
  | stale marks => stale marks
  | split offset => split (offset + d)
  | closed offset => closed (offset + d)
  | leaked offset => leaked (offset + d)
  | swallowed offset => swallowed (offset + d)
  | crossed offset => crossed (offset + d)

section Events

variable (event : Event) (d : Nat)

@[simp]
theorem Event.shift_is_mark : (event.shift d).is_mark = event.is_mark := by cases event <;> rfl

@[simp]
theorem Event.shift_is_split : (event.shift d).is_split = event.is_split := by cases event <;> rfl

@[simp]
theorem Event.shift_is_closed : (event.shift d).is_closed = event.is_closed := by
  cases event <;> rfl

@[simp]
theorem Event.shift_is_leaked : (event.shift d).is_leaked = event.is_leaked := by
  cases event <;> rfl

@[simp]
theorem Event.shift_is_crossed : (event.shift d).is_crossed = event.is_crossed := by
  cases event <;> rfl

end Events

/-- The second outcome is the first one at a place `d` tokens behind. -/
def Outcome.Shifted (d : Nat) {α : Type} : Outcome α → Outcome α → Prop
  | overflow, x' => x' = overflow
  | done result s trail, x' =>
    ∃ trail', trail'.events = trail.events.map (·.shift d) ∧
      x' = done (result.mapError (·.shift d)) (s.shift d) trail'

section Steps

variable {α β : Type} {d : Nat}

theorem mapError_ok (f : ParseError → ParseError) (a : α) :
    (Except.ok a : Except ParseError α).mapError f = .ok a := rfl

theorem mapError_error (f : ParseError → ParseError) (e : ParseError) :
    (Except.error e : Except ParseError α).mapError f = .error (f e) := rfl

theorem Outcome.Shifted.unchanged (a : α) (s : Parser) :
    Outcome.Shifted d (.done (.ok a) s {}) (.done (.ok a) (s.shift d) {}) :=
  ⟨{}, rfl, rfl⟩

theorem Outcome.Shifted.bind {x x' : Outcome α} {f f' : α → Parser → Outcome β}
    (hx : x.Shifted d x') (hf : ∀ a s, (f a s).Shifted d (f' a (s.shift d))) :
    (x.bind f).Shifted d (x'.bind f') := by
  cases x with
  | overflow =>
    cases hx
    rfl
  | done result s trail =>
    obtain ⟨trail', htrail, rfl⟩ := hx
    cases result with
    | error e => exact ⟨trail', htrail, rfl⟩
    | ok a =>
      have hrest := hf a s
      simp only [mapError_ok, Outcome.bind]
      cases hstep : f a s with
      | overflow =>
        rw [hstep] at hrest
        rw [show f' a (s.shift d) = .overflow from hrest]
        rfl
      | done result' s'' rest =>
        rw [hstep] at hrest
        obtain ⟨rest', hrest', hstep'⟩ := hrest
        rw [hstep']
        exact ⟨_, by simp [htrail, hrest'], rfl⟩

variable {before source : List Token}

theorem Parser.drop_shift (s : Parser) :
    (before ++ source).drop (s.shift before.length).pos = source.drop s.pos := by
  have hpos : (s.shift before.length).pos = before.length + s.pos := Nat.add_comm _ _
  rw [hpos, ← List.drop_drop, List.drop_left]

theorem Parser.ahead_shift (s : Parser) :
    (s.shift before.length).ahead (before ++ source) = s.ahead source := by
  unfold Parser.ahead
  rw [Parser.drop_shift]

theorem Parser.peek_shift (s : Parser) :
    (s.shift before.length).peek (before ++ source) = s.peek source := by
  unfold Parser.peek
  rw [Parser.ahead_shift]

theorem Parser.advance_shift (s : Parser) :
    (s.shift before.length).advance (before ++ source) =
      (s.advance source).shift before.length := by
  have hiff : (s.shift before.length).pos < (before ++ source).length ↔
      s.pos < source.length := by
    simp only [Parser.shift, List.length_append]
    omega
  unfold Parser.advance
  by_cases hlt : s.pos < source.length
  · rw [if_pos hlt, if_pos (hiff.mpr hlt)]
    simp only [Parser.shift]
    congr 1
    omega
  · rw [if_neg hlt, if_neg (fun h => hlt (hiff.mp h))]

theorem Parser.record_clause_mark_shift (s : Parser) (kind : ClauseKw) :
    (s.shift d).record_clause_mark kind = (s.record_clause_mark kind).shift d := by
  unfold Parser.record_clause_mark
  cases hcapture : s.capture_clause_marks <;>
    simp [Parser.shift, ClauseMark.shift, hcapture]

theorem Parser.unexpected_shifted (s : Parser) (expected : String) :
    (s.unexpected expected : Outcome α).Shifted d ((s.shift d).unexpected expected) :=
  ⟨{}, rfl, rfl⟩

theorem perform_shifted (action : Action) (s : Parser) :
    (perform source action s).Shifted before.length
      (perform (before ++ source) action (s.shift before.length)) := by
  cases action with
  | look test =>
    simp only [perform, Parser.ahead_shift]
    exact .unchanged _ s
  | advance =>
    simp only [perform, Parser.step, Parser.advance_shift, Parser.peek_shift]
    exact ⟨_, by split <;> rfl, rfl⟩
  | mode mode => exact .unchanged _ s
  | clause kind head =>
    simp only [perform, Parser.clause, Parser.peek_shift, Parser.record_clause_mark_shift,
      Parser.advance_shift]
    split
    · refine ⟨_, ?_, rfl⟩
      change (if s.capture_clause_marks then _ else _) = _
      split <;> rfl
    · exact .unchanged _ s
  | expect_angle_gt expected =>
    simp only [perform, Parser.expect_angle_gt, Parser.peek_shift, Parser.advance_shift]
    by_cases hpending : 0 < s.angle_gt_pending
    · rw [if_pos hpending, if_pos (show 0 < (s.shift before.length).angle_gt_pending from hpending)]
      exact ⟨_, rfl, rfl⟩
    · rw [if_neg hpending,
        if_neg (show ¬ 0 < (s.shift before.length).angle_gt_pending from hpending)]
      split
      · exact .unchanged _ _
      · split
        · exact ⟨_, rfl, rfl⟩
        · exact s.unexpected_shifted expected
  | unexpected expected => exact s.unexpected_shifted expected

end Steps

section Calls

variable {α β : Type} {d limit : Nat}

theorem Parser.shift_rewind (s s' : Parser) (truncating : Bool) :
    (s'.shift d).rewind (s.shift d) truncating = (s'.rewind s truncating).shift d := by
  cases truncating <;> simp [Parser.rewind, Parser.shift, List.map_take]

theorem is_limit_shift (result : Except ParseError α) :
    is_limit (result.mapError (·.shift d)) = is_limit result := by
  cases result <;> rfl

theorem isOk_shift (result : Except ParseError α) :
    (result.mapError (·.shift d)).isOk = result.isOk := by
  cases result <;> rfl

theorem abandon_shift (s s' : Parser) (truncating limited : Bool) (events : List Event) :
    (abandon (s.shift d) (s'.shift d) truncating limited (events.map (·.shift d))).events =
      (abandon s s' truncating limited events).events.map (·.shift d) := by
  have hfilter : (events.map (·.shift d)).filter (!·.is_mark) =
      (events.filter (!·.is_mark)).map (·.shift d) := by
    rw [List.filter_map]
    congr 1
    apply List.filter_congr
    intro event _
    simp
  simp only [abandon, hfilter, Parser.shift, List.length_map, List.map_append]
  congr 1
  · cases truncating <;> cases limited <;> rfl
  · split <;> rfl

/-- What is done with either outcome of a callee. -/
theorem Outcome.Shifted.finish {x x' : Outcome α}
    {f f' : Except ParseError α → Parser → Trail → Outcome β} :
    x.Shifted d x' →
    (∀ result s trail trail', trail'.events = trail.events.map (·.shift d) →
      (f result s trail).Shifted d (f' (result.mapError (·.shift d)) (s.shift d) trail')) →
    Outcome.Shifted d
      (match x with | .overflow => .overflow | .done result s trail => f result s trail)
      (match x' with | .overflow => .overflow | .done result s trail => f' result s trail) := by
  intro hx hf
  cases x with
  | overflow =>
    cases hx
    rfl
  | done result s trail =>
    obtain ⟨trail', htrail, rfl⟩ := hx
    exact hf result s trail trail' htrail

section Callees

variable {callee callee' : Parser → Outcome α}

theorem enter_recursion_shifted (hcallee : ∀ s, (callee s).Shifted d (callee' (s.shift d)))
    (s : Parser) :
    (enter_recursion limit callee s).Shifted d (enter_recursion limit callee' (s.shift d)) := by
  unfold enter_recursion
  by_cases hfull : s.recursion_depth ≥ limit
  · rw [if_pos hfull, if_pos (show (s.shift d).recursion_depth ≥ limit from hfull)]
    exact ⟨{}, rfl, rfl⟩
  · rw [if_neg hfull, if_neg (show ¬ (s.shift d).recursion_depth ≥ limit from hfull)]
    refine Outcome.Shifted.finish (hcallee { s with recursion_depth := s.recursion_depth + 1 }) ?_
    intro result s' trail trail' htrail
    exact ⟨trail', htrail, rfl⟩

theorem with_mode_shifted (mode : Mode) (value : Bool)
    (hcallee : ∀ s, (callee s).Shifted d (callee' (s.shift d))) (s : Parser) :
    (with_mode mode value callee s).Shifted d (with_mode mode value callee' (s.shift d)) := by
  refine Outcome.Shifted.finish (hcallee (s.set_mode mode value)) ?_
  intro result s' trail trail' htrail
  exact ⟨trail', htrail, rfl⟩

theorem patch_clause_marks_shift (marks : List ClauseMark) (start owner : Nat) :
    patch_clause_marks (marks.map (·.shift d)) start owner =
      (patch_clause_marks marks start owner).map (·.shift d) := by
  have hpatch : ∀ mark : ClauseMark, (mark.shift d).patch owner = (mark.patch owner).shift d := by
    intro mark
    unfold ClauseMark.patch
    by_cases hpending : mark.owner = none
    · rw [if_pos hpending, if_pos (show (mark.shift d).owner = none from hpending)]
      rfl
    · rw [if_neg hpending, if_neg (show ¬ (mark.shift d).owner = none from hpending)]
  simp only [patch_clause_marks, List.map_append, List.map_map, ← List.map_take, ← List.map_drop]
  congr 2
  funext mark
  exact hpatch mark

theorem enter_shifted (entry : Entry) (hcallee : ∀ s, (callee s).Shifted d (callee' (s.shift d)))
    (s : Parser) : (enter limit entry callee s).Shifted d (enter limit entry callee' (s.shift d)) := by
  cases entry with
  | plain => exact hcallee s
  | guarded => exact enter_recursion_shifted hcallee s
  | set modes =>
    simp only [enter, with_modes]
    induction modes generalizing s with
    | nil => exact hcallee s
    | cons assignment modes ih => exact with_mode_shifted _ _ ih s
  | attempt truncating =>
    have hinner := hcallee s
    simp only [enter, attempt]
    cases hrun : callee s with
    | overflow =>
      rw [hrun] at hinner
      rw [show callee' (s.shift d) = .overflow from hinner]
      rfl
    | done result s' trail =>
      rw [hrun] at hinner
      obtain ⟨trail', htrail, hrun'⟩ := hinner
      rw [hrun']
      cases result with
      | ok a => exact ⟨trail', htrail, rfl⟩
      | error e =>
        refine ⟨_, ?_, by simp only [mapError_error, mapError_ok, Parser.shift_rewind]; rfl⟩
        rw [htrail, abandon_shift]
        rfl
  | probe =>
    refine Outcome.Shifted.finish (hcallee s) ?_
    intro result s' trail trail' htrail
    refine ⟨_, ?_, by rw [isOk_shift, Parser.shift_rewind]; rfl⟩
    rw [htrail, is_limit_shift, abandon_shift]
  | owned =>
    have hinner := hcallee s
    simp only [enter, own]
    cases hrun : callee s with
    | overflow =>
      rw [hrun] at hinner
      rw [show callee' (s.shift d) = .overflow from hinner]
      rfl
    | done result s' trail =>
      rw [hrun] at hinner
      obtain ⟨trail', htrail, hrun'⟩ := hinner
      rw [hrun']
      cases result with
      | error e => exact ⟨trail', htrail, rfl⟩
      | ok a =>
        refine ⟨{ trail' with clauses := [.node s'.next_node_id trail'.clauses] }, htrail, ?_⟩
        simp only [mapError_ok, Parser.shift, List.length_map, patch_clause_marks_shift]

end Callees

theorem enter_query_shifted (grouping : Bool) {callee callee' : Bool → Parser → Outcome α}
    (hcallee : ∀ taken s, (callee taken s).Shifted d (callee' taken (s.shift d))) (s : Parser) :
    (enter_query limit grouping callee s).Shifted d
      (enter_query limit grouping callee' (s.shift d)) := by
  unfold enter_query
  by_cases hfull : s.recursion_depth ≥ limit
  · simp only [if_pos hfull, if_pos (show (s.shift d).recursion_depth ≥ limit from hfull)]
    refine ⟨_, ?_, rfl⟩
    change (if s.modes .InConnectBy ||
      (s.arm_query grouping).paren_query_grouping != s.paren_query_grouping then _ else _) =
        (if _ then _ else _ : List Event).map _
    split <;> rfl
  · simp only [if_neg hfull, if_neg (show ¬ (s.shift d).recursion_depth ≥ limit from hfull)]
    refine Outcome.Shifted.finish (hcallee (s.arm_query grouping).paren_query_grouping
      { s.arm_query grouping with
        paren_query_grouping := false, recursion_depth := s.recursion_depth + 1 }) ?_
    intro result s' trail trail' htrail
    refine ⟨_, ?_, rfl⟩
    simp only [htrail, List.map_append]
    congr 1
    change (if s.paren_query_grouping then _ else _) = _
    split <;> rfl

variable {before source : List Token}

theorem run_shifted {Proc : Type} {Ret : Proc → Type}
    {callee callee' : (p : Proc) → Parser → Outcome (Ret p)}
    (hcallee : ∀ p s, (callee p s).Shifted before.length (callee' p (s.shift before.length)))
    (program : Method Ret α) (s : Parser) :
    (program.run source limit callee s).Shifted before.length
      (program.run (before ++ source) limit callee' (s.shift before.length)) := by
  induction program generalizing s with
  | pure a => exact .unchanged a s
  | act action k ih => exact (perform_shifted action s).bind fun reply s' => ih reply s'
  | call entry p k ih =>
    exact (enter_shifted entry (hcallee p) s).bind fun reply s' => ih reply s'
  | query grouping p k ih =>
    apply Outcome.Shifted.bind
    · apply enter_query_shifted
      intro taken s'
      exact (hcallee (p taken) s').bind fun a s'' => .unchanged _ s''
    · intro reply s'
      exact ih reply.1 reply.2 s'

/-- A production does behind other tokens what it does at the beginning. -/
theorem exec_shifted (G : Grammar) (frames : Nat) (p : G.Proc) (s : Parser) :
    (G.exec source limit frames p s).Shifted before.length
      (G.exec (before ++ source) limit frames p (s.shift before.length)) := by
  induction frames generalizing p s with
  | zero => rfl
  | succ frames ih => exact run_shifted ih (G.body p) s

end Calls

end squonk.parser.method
