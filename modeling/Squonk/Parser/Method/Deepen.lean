import Squonk.Parser.Method.Runs

/-!
# Runs at another depth

A run under a larger limit that begins deeper by as much is the same run.
-/

open squonk.tokenizer

namespace squonk.parser.method

def Parser.deepen (self : Parser) (d : Nat) : Parser :=
  { self with recursion_depth := self.recursion_depth + d }

def Outcome.deepen {α : Type} (x : Outcome α) (d : Nat) : Outcome α :=
  match x with
  | overflow => overflow
  | done result s trail => done result (s.deepen d) trail

/-- A run from `s` and one that begins `d` levels deeper are the same, and the level is back behind
them. -/
structure Outcome.Deepened {α : Type} (d : Nat) (s : Parser) (x x' : Outcome α) : Prop where
  same : x' = x.deepen d
  level : x.Sat (fun s _ s' _ => s'.recursion_depth = s.recursion_depth) s

section Steps

variable {α β : Type} {d : Nat} {source : List Token}

theorem Outcome.Deepened.unchanged (result : Except ParseError α) (s : Parser) (trail : Trail) :
    Outcome.Deepened d s (.done result s trail) (.done result (s.deepen d) trail) :=
  ⟨rfl, rfl⟩

theorem Outcome.Deepened.bind {s : Parser} {x x' : Outcome α} {f f' : α → Parser → Outcome β}
    (hx : x.Deepened d s x') (hf : ∀ a s, (f a s).Deepened d s (f' a (s.deepen d))) :
    (x.bind f).Deepened d s (x'.bind f') := by
  obtain ⟨rfl, hlevel⟩ := hx
  cases x with
  | overflow => exact ⟨rfl, trivial⟩
  | done result s' trail =>
    cases result with
    | error e => exact ⟨rfl, hlevel⟩
    | ok a =>
      obtain ⟨hsame, hrest⟩ := hf a s'
      simp only [Outcome.deepen, Outcome.bind, hsame]
      cases hstep : f a s' with
      | overflow => exact ⟨rfl, trivial⟩
      | done result' s'' rest =>
        rw [hstep] at hrest
        exact ⟨rfl, Eq.trans hrest hlevel⟩

theorem Parser.advance_deepen (s : Parser) :
    (s.deepen d).advance source = (s.advance source).deepen d := by
  unfold Parser.advance
  by_cases hleft : s.pos < source.length
  · rw [if_pos hleft, if_pos (show (s.deepen d).pos < source.length from hleft)]
    rfl
  · rw [if_neg hleft, if_neg (show ¬ (s.deepen d).pos < source.length from hleft)]

theorem Parser.advance_depth (s : Parser) :
    (s.advance source).recursion_depth = s.recursion_depth := by
  unfold Parser.advance
  split <;> rfl

theorem Parser.record_clause_mark_deepen (s : Parser) (kind : ClauseKw) :
    (s.deepen d).record_clause_mark kind = (s.record_clause_mark kind).deepen d := by
  unfold Parser.record_clause_mark
  by_cases hcapture : s.capture_clause_marks = true
  · rw [if_pos hcapture, if_pos (show (s.deepen d).capture_clause_marks = true from hcapture)]
    rfl
  · rw [if_neg hcapture, if_neg (show ¬ (s.deepen d).capture_clause_marks = true from hcapture)]

theorem Parser.record_clause_mark_depth (s : Parser) (kind : ClauseKw) :
    (s.record_clause_mark kind).recursion_depth = s.recursion_depth := by
  unfold Parser.record_clause_mark
  split <;> rfl

theorem perform_deepened (action : Action) (s : Parser) :
    (perform source action s).Deepened d s (perform source action (s.deepen d)) := by
  have hpeek : (s.deepen d).peek source = s.peek source := rfl
  cases action with
  | look test => exact .unchanged _ s {}
  | advance =>
    simp only [perform, Parser.step, hpeek, Parser.advance_deepen]
    exact ⟨rfl, Parser.advance_depth s⟩
  | mode mode => exact .unchanged _ s {}
  | clause kind head =>
    simp only [perform, Parser.clause, hpeek]
    split
    · rw [Parser.record_clause_mark_deepen, Parser.advance_deepen]
      exact ⟨rfl, (Parser.advance_depth _).trans (Parser.record_clause_mark_depth s kind)⟩
    · exact .unchanged _ s {}
  | expect_angle_gt expected =>
    have hpending : (s.deepen d).angle_gt_pending = s.angle_gt_pending := rfl
    simp only [perform, Parser.expect_angle_gt, hpeek, hpending, Parser.advance_deepen]
    split
    · exact ⟨rfl, rfl⟩
    · split
      · exact ⟨rfl, Parser.advance_depth s⟩
      · split
        · exact ⟨rfl, Parser.advance_depth s⟩
        · exact .unchanged _ s {}
  | unexpected expected => exact .unchanged _ s {}

end Steps

section Calls

variable {α : Type} {d limit : Nat}

section Callees

variable {callee callee' : Parser → Outcome α}

theorem enter_recursion_deepened
    (hcallee : ∀ s, (callee s).Deepened d s (callee' (s.deepen d))) (s : Parser) :
    (enter_recursion limit callee s).Deepened d s
      (enter_recursion (limit + d) callee' (s.deepen d)) := by
  have hfull_iff : (s.deepen d).recursion_depth ≥ limit + d ↔ s.recursion_depth ≥ limit :=
    Nat.add_le_add_iff_right
  unfold enter_recursion
  by_cases hfull : s.recursion_depth ≥ limit
  · rw [if_pos hfull, if_pos (hfull_iff.mpr hfull)]
    exact .unchanged _ s {}
  · rw [if_neg hfull, if_neg (fun h => hfull (hfull_iff.mp h))]
    obtain ⟨hsame, hlevel⟩ := hcallee { s with recursion_depth := s.recursion_depth + 1 }
    have hnext : ({ s.deepen d with recursion_depth := (s.deepen d).recursion_depth + 1 } : Parser) =
        ({ s with recursion_depth := s.recursion_depth + 1 } : Parser).deepen d := by
      simp only [Parser.deepen, Parser.mk.injEq, true_and, and_true]
      omega
    rw [hnext, hsame]
    cases hrun : callee { s with recursion_depth := s.recursion_depth + 1 } with
    | overflow => exact ⟨rfl, trivial⟩
    | done result s' trail =>
      rw [hrun] at hlevel
      have hdepth : s'.recursion_depth = s.recursion_depth + 1 := hlevel
      refine ⟨?_, ?_⟩
      · have hback : (s'.deepen d).recursion_depth - 1 = s'.recursion_depth - 1 + d := by
          show s'.recursion_depth + d - 1 = _
          omega
        simp only [Outcome.deepen, hback]
        rfl
      · show s'.recursion_depth - 1 = s.recursion_depth
        omega

theorem with_mode_deepened (mode : Mode) (value : Bool)
    (hcallee : ∀ s, (callee s).Deepened d s (callee' (s.deepen d))) (s : Parser) :
    (with_mode mode value callee s).Deepened d s
      (with_mode mode value callee' (s.deepen d)) := by
  obtain ⟨hsame, hlevel⟩ := hcallee (s.set_mode mode value)
  have hset : (s.deepen d).set_mode mode value = (s.set_mode mode value).deepen d := rfl
  unfold with_mode
  rw [hset, hsame]
  cases hrun : callee (s.set_mode mode value) with
  | overflow => exact ⟨rfl, trivial⟩
  | done result s' trail =>
    rw [hrun] at hlevel
    exact ⟨rfl, hlevel⟩

theorem enter_deepened (entry : Entry)
    (hcallee : ∀ s, (callee s).Deepened d s (callee' (s.deepen d))) (s : Parser) :
    (enter limit entry callee s).Deepened d s
      (enter (limit + d) entry callee' (s.deepen d)) := by
  cases entry with
  | plain => exact hcallee s
  | guarded => exact enter_recursion_deepened hcallee s
  | set modes =>
    simp only [enter, with_modes]
    induction modes generalizing s with
    | nil => exact hcallee s
    | cons assignment modes ih => exact with_mode_deepened _ _ ih s
  | attempt truncating =>
    obtain ⟨hsame, hlevel⟩ := hcallee s
    simp only [enter, attempt, hsame]
    cases hrun : callee s with
    | overflow => exact ⟨rfl, trivial⟩
    | done result s' trail =>
      rw [hrun] at hlevel
      cases result with
      | ok a => exact ⟨rfl, hlevel⟩
      | error e => exact ⟨rfl, hlevel⟩
  | probe =>
    obtain ⟨hsame, hlevel⟩ := hcallee s
    simp only [enter, probe, hsame]
    cases hrun : callee s with
    | overflow => exact ⟨rfl, trivial⟩
    | done result s' trail =>
      rw [hrun] at hlevel
      exact ⟨rfl, hlevel⟩
  | owned =>
    obtain ⟨hsame, hlevel⟩ := hcallee s
    simp only [enter, own, hsame]
    cases hrun : callee s with
    | overflow => exact ⟨rfl, trivial⟩
    | done result s' trail =>
      rw [hrun] at hlevel
      cases result with
      | ok a => exact ⟨rfl, hlevel⟩
      | error e => exact ⟨rfl, hlevel⟩

end Callees

theorem enter_query_deepened (grouping : Bool) {callee callee' : Bool → Parser → Outcome α}
    (hcallee : ∀ taken s, (callee taken s).Deepened d s (callee' taken (s.deepen d))) (s : Parser) :
    (enter_query limit grouping callee s).Deepened d s
      (enter_query (limit + d) grouping callee' (s.deepen d)) := by
  have hfull_iff : (s.deepen d).recursion_depth ≥ limit + d ↔ s.recursion_depth ≥ limit :=
    Nat.add_le_add_iff_right
  unfold enter_query
  by_cases hfull : s.recursion_depth ≥ limit
  · simp only [if_pos hfull, if_pos (hfull_iff.mpr hfull)]
    exact ⟨rfl, rfl⟩
  · simp only [if_neg hfull, if_neg (fun h => hfull (hfull_iff.mp h))]
    obtain ⟨hsame, hlevel⟩ := hcallee (s.arm_query grouping).paren_query_grouping
      { s.arm_query grouping with
        paren_query_grouping := false, recursion_depth := s.recursion_depth + 1 }
    have hnext : ({ (s.deepen d).arm_query grouping with
          paren_query_grouping := false
          recursion_depth := (s.deepen d).recursion_depth + 1 } : Parser) =
        ({ s.arm_query grouping with
          paren_query_grouping := false
          recursion_depth := s.recursion_depth + 1 } : Parser).deepen d := by
      have hdepth : (s.deepen d).recursion_depth + 1 = s.recursion_depth + 1 + d :=
        Nat.add_right_comm _ d 1
      rw [hdepth]
      rfl
    have htaken : ((s.deepen d).arm_query grouping).paren_query_grouping =
        (s.arm_query grouping).paren_query_grouping := rfl
    rw [htaken, hnext, hsame]
    cases hrun : callee (s.arm_query grouping).paren_query_grouping
        { s.arm_query grouping with
          paren_query_grouping := false, recursion_depth := s.recursion_depth + 1 } with
    | overflow => exact ⟨rfl, trivial⟩
    | done result s' trail =>
      rw [hrun] at hlevel
      have hdepth : s'.recursion_depth = s.recursion_depth + 1 := hlevel
      refine ⟨?_, ?_⟩
      · have hback : (s'.deepen d).recursion_depth - 1 = s'.recursion_depth - 1 + d := by
          show s'.recursion_depth + d - 1 = _
          omega
        simp only [Outcome.deepen, hback]
        rfl
      · show s'.recursion_depth - 1 = s.recursion_depth
        omega

variable {source : List Token}

theorem run_deepened {Proc : Type} {Ret : Proc → Type}
    {callee callee' : (p : Proc) → Parser → Outcome (Ret p)}
    (hcallee : ∀ p s, (callee p s).Deepened d s (callee' p (s.deepen d)))
    (program : Method Ret α) (s : Parser) :
    (program.run source limit callee s).Deepened d s
      (program.run source (limit + d) callee' (s.deepen d)) := by
  induction program generalizing s with
  | pure a => exact .unchanged _ s {}
  | act action k ih => exact (perform_deepened action s).bind fun reply s' => ih reply s'
  | call entry p k ih =>
    exact (enter_deepened entry (hcallee p) s).bind fun reply s' => ih reply s'
  | query grouping p k ih =>
    apply Outcome.Deepened.bind
    · apply enter_query_deepened
      intro taken s'
      exact (hcallee (p taken) s').bind fun a s'' => .unchanged _ s'' {}
    · intro reply s'
      exact ih reply.1 reply.2 s'

/-- A production does the same at every depth that leaves it as many levels. -/
theorem exec_deepened (G : Grammar) (frames : Nat) (p : G.Proc) (s : Parser) :
    (G.exec source limit frames p s).Deepened d s
      (G.exec source (limit + d) frames p (s.deepen d)) := by
  induction frames generalizing p s with
  | zero => exact ⟨rfl, trivial⟩
  | succ frames ih => exact run_deepened ih (G.body p) s

end Calls

end squonk.parser.method
