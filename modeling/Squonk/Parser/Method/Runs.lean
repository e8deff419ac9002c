import Squonk.Parser.Method.Language

/-!
# What holds of every run

A relation between the state a production starts in and the state it ends in holds of every run
of every grammar once each step keeps it.
-/

open squonk.tokenizer

namespace squonk.parser.method

/-- The relation holds between `s` and what the run came to, if it came to an end. -/
def Outcome.Sat {α : Type} (P : Parser → Option ParseError → Parser → Trail → Prop) (s : Parser) :
    Outcome α → Prop
  | overflow => True
  | done result s' trail => P s (error? result) s' trail

theorem Outcome.Sat.imp {α : Type} {P Q : Parser → Option ParseError → Parser → Trail → Prop}
    {s : Parser} {x : Outcome α} (hx : x.Sat P s)
    (himp : ∀ error s' trail, P s error s' trail → Q s error s' trail) : x.Sat Q s := by
  cases x with
  | overflow => trivial
  | done result s' trail => exact himp _ _ _ hx

/-- A relation between the state before a run, the error it ends in if it does, the state behind
it and its trail that every step keeps. -/
structure Rule (source : List Token) (limit : Nat)
    (P : Parser → Option ParseError → Parser → Trail → Prop) : Prop where
  pure (s : Parser) : P s none s {}
  perform (action : Action) (s : Parser) : (perform source action s).Sat P s
  after {s s' s'' : Parser} {error : Option ParseError} {trail rest : Trail}
    (first : P s none s' trail) (second : P s' error s'' rest) :
    P s error s'' ⟨trail.clauses ++ rest.clauses, trail.events ++ rest.events⟩
  refused (s : Parser) (full : limit ≤ s.recursion_depth) :
    P s (some ⟨.RecursionLimitExceeded, s.pos⟩) s {}
  guarded {s s' : Parser} {error : Option ParseError} {trail : Trail}
    (room : s.recursion_depth < limit)
    (inner : P { s with recursion_depth := s.recursion_depth + 1 } error s' trail) :
    P s error { s' with recursion_depth := s'.recursion_depth - 1 } trail
  set (mode : Mode) (value : Bool) {s s' : Parser} {error : Option ParseError} {trail : Trail}
    (inner : P (s.set_mode mode value) error s' trail) :
    P s error (s'.set_mode mode (s.modes mode)) trail
  rewind (truncating limited : Bool) {s s' : Parser} {error : Option ParseError} {trail : Trail}
    (inner : P s error s' trail) :
    P s none (s'.rewind s truncating) (abandon s s' truncating limited trail.events)
  owned {s s' : Parser} {trail : Trail} (inner : P s none s' trail) :
    P s none
      { s' with
        next_node_id := s'.next_node_id + 1
        clause_marks :=
          patch_clause_marks s'.clause_marks s.clause_marks.length s'.next_node_id }
      { trail with clauses := [.node s'.next_node_id trail.clauses] }
  query_refused (grouping : Bool) (s : Parser) (full : limit ≤ s.recursion_depth) :
    P s (some ⟨.RecursionLimitExceeded, s.pos⟩) (s.arm_query grouping)
      { events :=
          if s.modes .InConnectBy ||
              (s.arm_query grouping).paren_query_grouping != s.paren_query_grouping then
            [.leaked s.pos] else [] }
  query (grouping : Bool) {s s' : Parser} {error : Option ParseError} {trail : Trail}
    (room : s.recursion_depth < limit)
    (inner :
      P { s.arm_query grouping with
          paren_query_grouping := false, recursion_depth := s.recursion_depth + 1 } error s' trail) :
    P s error
      { s'.set_mode .InConnectBy (s.modes .InConnectBy) with
        recursion_depth := s'.recursion_depth - 1 }
      { trail with
        events := (if s.paren_query_grouping then [.leaked s.pos] else []) ++ trail.events }

namespace Rule

variable {source : List Token} {limit : Nat} {P : Parser → Option ParseError → Parser → Trail → Prop}
variable {α β : Type}

theorem bind (rule : Rule source limit P) {s : Parser} {x : Outcome α}
    {f : α → Parser → Outcome β} (hx : x.Sat P s) (hf : ∀ a s', (f a s').Sat P s') :
    (x.bind f).Sat P s := by
  cases x with
  | overflow => trivial
  | done result s' trail =>
    cases result with
    | error e => exact hx
    | ok a =>
      have hrest := hf a s'
      simp only [Outcome.bind]
      cases hstep : f a s' with
      | overflow => trivial
      | done result' s'' rest =>
        rw [hstep] at hrest
        exact rule.after hx hrest

theorem with_mode (rule : Rule source limit P) (mode : Mode) (value : Bool)
    {callee : Parser → Outcome α} (hcallee : ∀ s, (callee s).Sat P s) (s : Parser) :
    (with_mode mode value callee s).Sat P s := by
  have hinner := hcallee (s.set_mode mode value)
  unfold method.with_mode
  split
  · trivial
  · next result s' trail hrun =>
    rw [hrun] at hinner
    exact rule.set mode value hinner

theorem enter (rule : Rule source limit P) (entry : Entry) {callee : Parser → Outcome α}
    (hcallee : ∀ s, (callee s).Sat P s) (s : Parser) :
    (enter limit entry callee s).Sat P s := by
  cases entry with
  | plain => exact hcallee s
  | guarded =>
    simp only [method.enter, enter_recursion]
    split
    · next hfull => exact rule.refused s hfull
    · next hroom =>
      have hinner := hcallee { s with recursion_depth := s.recursion_depth + 1 }
      split
      · trivial
      · next result s' trail hrun =>
        rw [hrun] at hinner
        exact rule.guarded (by omega) hinner
  | set modes =>
    simp only [method.enter, with_modes]
    induction modes generalizing s with
    | nil => exact hcallee s
    | cons assignment modes ih => exact rule.with_mode _ _ ih s
  | attempt truncating =>
    have hinner := hcallee s
    simp only [method.enter, attempt]
    split
    · trivial
    · next a s' trail hrun =>
      rw [hrun] at hinner
      exact hinner
    · next e s' trail hrun =>
      rw [hrun] at hinner
      exact rule.rewind truncating _ hinner
  | probe =>
    have hinner := hcallee s
    simp only [method.enter, probe]
    split
    · trivial
    · next result s' trail hrun =>
      rw [hrun] at hinner
      exact rule.rewind true _ hinner
  | owned =>
    have hinner := hcallee s
    simp only [method.enter, own]
    split
    · trivial
    · next e s' trail hrun =>
      rw [hrun] at hinner
      exact hinner
    · next a s' trail hrun =>
      rw [hrun] at hinner
      exact rule.owned hinner

theorem enter_query (rule : Rule source limit P) (grouping : Bool)
    {callee : Bool → Parser → Outcome α} (hcallee : ∀ taken s, (callee taken s).Sat P s)
    (s : Parser) : (enter_query limit grouping callee s).Sat P s := by
  simp only [method.enter_query]
  split
  · next hfull => exact rule.query_refused grouping s hfull
  · next hroom =>
    have hinner := hcallee (s.arm_query grouping).paren_query_grouping
      { s.arm_query grouping with
        paren_query_grouping := false, recursion_depth := s.recursion_depth + 1 }
    split
    · trivial
    · next result s' trail hrun =>
      rw [hrun] at hinner
      exact rule.query grouping (by omega) hinner

theorem run {Proc : Type} {Ret : Proc → Type} (rule : Rule source limit P)
    {callee : (p : Proc) → Parser → Outcome (Ret p)} (hcallee : ∀ p s, (callee p s).Sat P s)
    (program : Method Ret α) (s : Parser) : (program.run source limit callee s).Sat P s := by
  induction program generalizing s with
  | pure a => exact rule.pure s
  | act action k ih => exact rule.bind (rule.perform action s) fun reply s' => ih reply s'
  | call entry p k ih =>
    exact rule.bind (rule.enter entry (hcallee p) s) fun reply s' => ih reply s'
  | query grouping p k ih =>
    apply rule.bind
    · apply rule.enter_query
      intro taken s'
      exact rule.bind (hcallee (p taken) s') fun _ s'' => rule.pure s''
    · intro reply s'
      exact ih reply.1 reply.2 s'

/-- What every step keeps holds of every run, on any stack. -/
theorem exec (rule : Rule source limit P) (G : Grammar) (frames : Nat) (p : G.Proc)
    (s : Parser) : (G.exec source limit frames p s).Sat P s := by
  induction frames generalizing p s with
  | zero => trivial
  | succ frames ih => exact rule.run ih (G.body p) s

end Rule

end squonk.parser.method
