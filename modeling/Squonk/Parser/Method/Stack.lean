import Squonk.Parser.Method.Frame

/-!
# The stack of a run

The calls that are open inside each other at some time of a run. The guard counts those that are
made under it, and a rank of the productions bounds how many others stand between two of them.
-/

open squonk.tokenizer

namespace squonk.parser.method

/-! ## Calls -/

/-- A call that is open: what was called, and whether the guard counts it. -/
structure Frame (Proc : Type) where
  guarded : Bool
  proc : Proc

/-- The state in which a call begins, unless the guard refuses it. -/
def Entry.opens (limit : Nat) (entry : Entry) (s : Parser) : Option Parser :=
  match entry with
  | guarded =>
    if s.recursion_depth ≥ limit then none
    else some { s with recursion_depth := s.recursion_depth + 1 }
  | set modes => some (modes.foldl (fun s (mode, value) => s.set_mode mode value) s)
  | plain | attempt _ | probe | owned => some s

def Entry.is_guarded : Entry → Bool
  | guarded => true
  | _ => false

/-- The state in which a query begins. -/
def Parser.enter_armed (self : Parser) (grouping : Bool) : Parser :=
  { self.arm_query grouping with
    paren_query_grouping := false, recursion_depth := self.recursion_depth + 1 }

/-- The program, run in `s`, comes to a call that begins in `t`. The calls before it are over. -/
inductive Calls {Proc : Type} {Ret : Proc → Type} {α : Type} (source : List Token) (limit : Nat)
    (callee : (p : Proc) → Parser → Outcome (Ret p)) :
    Method Ret α → Parser → Frame Proc → Parser → Prop
  | act {action : Action} {k : action.Reply → Method Ret α} {s s' t : Parser} {trail : Trail}
      {reply : action.Reply} {frame : Frame Proc}
      (hstep : perform source action s = .done (.ok reply) s' trail)
      (hrest : Calls source limit callee (k reply) s' frame t) :
      Calls source limit callee (.act action k) s frame t
  | past {entry : Entry} {p : Proc} {k : entry.Reply (Ret p) → Method Ret α} {s s' t : Parser}
      {trail : Trail} {reply : entry.Reply (Ret p)} {frame : Frame Proc}
      (hcall : enter limit entry (callee p) s = .done (.ok reply) s' trail)
      (hrest : Calls source limit callee (k reply) s' frame t) :
      Calls source limit callee (.call entry p k) s frame t
  | here {entry : Entry} {p : Proc} {k : entry.Reply (Ret p) → Method Ret α} {s t : Parser}
      (hopens : entry.opens limit s = some t) :
      Calls source limit callee (.call entry p k) s ⟨entry.is_guarded, p⟩ t
  | past_query {grouping : Bool} {p : Bool → Proc} {k : (taken : Bool) → Ret (p taken) → Method Ret α}
      {s s' t : Parser} {trail : Trail} {reply : Σ taken, Ret (p taken)} {frame : Frame Proc}
      (hcall : enter_query limit grouping (fun taken s => (callee (p taken) s).bind fun a s =>
        .done (.ok (⟨taken, a⟩ : Σ t, Ret (p t))) s {}) s = .done (.ok reply) s' trail)
      (hrest : Calls source limit callee (k reply.1 reply.2) s' frame t) :
      Calls source limit callee (.query grouping p k) s frame t
  | here_query {grouping : Bool} {p : Bool → Proc}
      {k : (taken : Bool) → Ret (p taken) → Method Ret α} {s : Parser}
      (hroom : s.recursion_depth < limit) :
      Calls source limit callee (.query grouping p k) s
        ⟨true, p (s.arm_query grouping).paren_query_grouping⟩ (s.enter_armed grouping)

/-- The calls that are open inside each other when a run of `p` from `s` comes to `t`. -/
inductive Live (G : Grammar) (source : List Token) (limit : Nat) :
    G.Proc → Parser → List (Frame G.Proc) → Parser → Prop
  | top (p : G.Proc) (s : Parser) : Live G source limit p s [] s
  | call {p : G.Proc} {s s' t : Parser} {frame : Frame G.Proc} {stack : List (Frame G.Proc)}
      {frames : Nat}
      (hcall : Calls source limit (G.exec source limit frames) (G.body p) s frame s')
      (hrest : Live G source limit frame.proc s' stack t) :
      Live G source limit p s (frame :: stack) t

/-! ## The guard -/

section Guard

variable {source : List Token} {limit : Nat} {s t : Parser}

theorem foldl_set_mode_depth (modes : List (Mode × Bool)) (s : Parser) :
    (modes.foldl (fun s (mode, value) => s.set_mode mode value) s).recursion_depth =
      s.recursion_depth := by
  induction modes generalizing s with
  | nil => rfl
  | cons assignment modes ih => exact ih _

theorem Entry.opens_depth {entry : Entry} (hopens : entry.opens limit s = some t) :
    t.recursion_depth = s.recursion_depth + entry.is_guarded.toNat ∧
      (entry.is_guarded = true → t.recursion_depth ≤ limit) := by
  cases entry with
  | guarded =>
    simp only [Entry.opens] at hopens
    split at hopens
    · cases hopens
    · cases hopens
      exact ⟨rfl, fun _ => by simp only; omega⟩
  | set modes =>
    cases hopens
    exact ⟨foldl_set_mode_depth modes s, by simp [Entry.is_guarded]⟩
  | plain | attempt _ | probe | owned =>
    cases hopens
    exact ⟨rfl, by simp [Entry.is_guarded]⟩

theorem Calls.depth {G : Grammar} {frames : Nat} {α : Type} {program : Method G.Ret α}
    {frame : Frame G.Proc}
    (hcalls : Calls source limit (G.exec source limit frames) program s frame t) :
    t.recursion_depth = s.recursion_depth + frame.guarded.toNat ∧
      (frame.guarded = true → t.recursion_depth ≤ limit) := by
  have rule := framed_rule source limit
  induction hcalls with
  | @act action k s s' t trail reply frame hstep hrest ih =>
    have hframed := rule.perform action s
    rw [hstep] at hframed
    rw [← hframed.depth]
    exact ih
  | @past entry p k s s' t trail reply frame hcall hrest ih =>
    have hframed := rule.enter entry (rule.exec G frames p) s
    rw [hcall] at hframed
    rw [← hframed.depth]
    exact ih
  | here hopens => exact Entry.opens_depth hopens
  | @past_query grouping p k s s' t trail reply frame hcall hrest ih =>
    have hquery : ∀ taken s', Outcome.Sat Framed s'
        ((G.exec source limit frames (p taken) s').bind fun a s =>
          .done (.ok (⟨taken, a⟩ : Σ t, G.Ret (p t))) s {}) :=
      fun taken s' => rule.bind (rule.exec G frames (p taken) s') fun _ s'' => rule.pure s''
    have hframed := rule.enter_query grouping hquery s
    rw [hcall] at hframed
    rw [← hframed.depth]
    exact ih
  | here_query hroom => exact ⟨rfl, fun _ => hroom⟩

/-- The guard's counter is the number of the open calls that it counts, and never above the
limit. -/
theorem Live.depth {G : Grammar} {p : G.Proc} {stack : List (Frame G.Proc)}
    (hlive : Live G source limit p s stack t) :
    t.recursion_depth = s.recursion_depth + stack.countP (·.guarded) ∧
      (s.recursion_depth ≤ limit → t.recursion_depth ≤ limit) := by
  induction hlive with
  | top p s => exact ⟨by simp, id⟩
  | @call p s s' t frame stack frames hcall hrest ih =>
    obtain ⟨hdepth, hlimit⟩ := hcall.depth
    obtain ⟨hcount, hle⟩ := ih
    rw [List.countP_cons]
    cases hguarded : frame.guarded with
    | true =>
      rw [hguarded] at hdepth
      refine ⟨?_, fun _ => hle (hlimit hguarded)⟩
      simp only [hcount, hdepth, Bool.toNat_true, if_true]
      omega
    | false =>
      rw [hguarded] at hdepth
      refine ⟨?_, fun hs => hle (by simpa [hdepth] using hs)⟩
      simp [hcount, hdepth]

end Guard

/-! ## The stack that a run needs -/

/-- The outcomes are the same, unless a stack was too small for one of them. -/
def Outcome.Compatible {α : Type} (x x' : Outcome α) : Prop :=
  x = .overflow ∨ x' = .overflow ∨ x = x'

section Compatible

variable {α β : Type} {source : List Token} {limit : Nat}

theorem bind_compatible {x x' : Outcome α} {f f' : α → Parser → Outcome β}
    (hx : x.Compatible x') (hf : ∀ a s, (f a s).Compatible (f' a s)) :
    (x.bind f).Compatible (x'.bind f') := by
  obtain rfl | rfl | rfl := hx
  · exact .inl rfl
  · exact .inr (.inl rfl)
  · cases x with
    | overflow => exact .inl rfl
    | done result s trail =>
      cases result with
      | error e => exact .inr (.inr rfl)
      | ok a =>
        simp only [Outcome.bind]
        obtain h | h | h := hf a s <;> rw [h]
        · exact .inl rfl
        · exact .inr (.inl rfl)
        · exact .inr (.inr rfl)

theorem enter_compatible (entry : Entry) {callee callee' : Parser → Outcome α}
    (hcallee : ∀ s, (callee s).Compatible (callee' s)) (s : Parser) :
    (enter limit entry callee s).Compatible (enter limit entry callee' s) := by
  cases entry with
  | plain => exact hcallee s
  | guarded =>
    simp only [enter, enter_recursion]
    split
    · exact .inr (.inr rfl)
    · obtain h | h | h := hcallee { s with recursion_depth := s.recursion_depth + 1 } <;> rw [h]
      · exact .inl rfl
      · exact .inr (.inl rfl)
      · exact .inr (.inr rfl)
  | set modes =>
    simp only [enter, with_modes]
    induction modes generalizing s with
    | nil => exact hcallee s
    | cons assignment modes ih =>
      simp only [List.foldr_cons, with_mode]
      obtain h | h | h := ih (s.set_mode assignment.1 assignment.2) <;> rw [h]
      · exact .inl rfl
      · exact .inr (.inl rfl)
      · exact .inr (.inr rfl)
  | attempt _ | probe | owned =>
    simp only [enter, attempt, probe, own]
    obtain h | h | h := hcallee s <;> rw [h]
    · exact .inl rfl
    · exact .inr (.inl rfl)
    · exact .inr (.inr rfl)

theorem enter_query_compatible (grouping : Bool) {callee callee' : Bool → Parser → Outcome α}
    (hcallee : ∀ taken s, (callee taken s).Compatible (callee' taken s)) (s : Parser) :
    (enter_query limit grouping callee s).Compatible (enter_query limit grouping callee' s) := by
  simp only [enter_query]
  split
  · exact .inr (.inr rfl)
  · obtain h | h | h := hcallee (s.arm_query grouping).paren_query_grouping
      { s.arm_query grouping with
        paren_query_grouping := false, recursion_depth := s.recursion_depth + 1 } <;> rw [h]
    · exact .inl rfl
    · exact .inr (.inl rfl)
    · exact .inr (.inr rfl)

theorem run_compatible {Proc : Type} {Ret : Proc → Type}
    {callee callee' : (p : Proc) → Parser → Outcome (Ret p)}
    (hcallee : ∀ p s, (callee p s).Compatible (callee' p s)) (program : Method Ret α)
    (s : Parser) :
    (program.run source limit callee s).Compatible (program.run source limit callee' s) := by
  induction program generalizing s with
  | pure a => exact .inr (.inr rfl)
  | act action k ih => exact bind_compatible (.inr (.inr rfl)) fun reply s' => ih reply s'
  | call entry p k ih =>
    exact bind_compatible (enter_compatible entry (hcallee p) s) fun reply s' => ih reply s'
  | query grouping p k ih =>
    apply bind_compatible
    · apply enter_query_compatible
      intro taken s'
      exact bind_compatible (hcallee (p taken) s') fun _ _ => .inr (.inr rfl)
    · intro reply s'
      exact ih reply.1 reply.2 s'

theorem exec_compatible (G : Grammar) (frames frames' : Nat) (p : G.Proc) (s : Parser) :
    (G.exec source limit frames p s).Compatible (G.exec source limit frames' p s) := by
  induction frames generalizing frames' p s with
  | zero => exact .inl rfl
  | succ frames ih =>
    cases frames' with
    | zero => exact .inr (.inl rfl)
    | succ frames' => exact run_compatible (fun p s => ih frames' p s) (G.body p) s

end Compatible

section Overflow

variable {α β : Type} {source : List Token} {limit : Nat} {s t : Parser}

theorem perform_ne_overflow (action : Action) : perform source action s ≠ .overflow := by
  cases action <;>
    simp only [perform, Parser.step, Parser.clause, Parser.expect_angle_gt, Parser.unexpected] <;>
    repeat' split
  all_goals simp

theorem bind_overflow_iff {x : Outcome α} {f : α → Parser → Outcome β} :
    x.bind f = .overflow ↔
      x = .overflow ∨ ∃ a s trail, x = .done (.ok a) s trail ∧ f a s = .overflow := by
  cases x with
  | overflow => simp [Outcome.bind]
  | done result s trail =>
    cases result with
    | error e => simp [Outcome.bind]
    | ok a => cases hf : f a s <;> simp [Outcome.bind, hf, Outcome.after]

theorem with_mode_overflow_iff (mode : Mode) (value : Bool) {callee : Parser → Outcome α} :
    with_mode mode value callee s = .overflow ↔ callee (s.set_mode mode value) = .overflow := by
  unfold with_mode
  split <;> simp_all

theorem enter_overflow_iff {entry : Entry} {callee : Parser → Outcome α} :
    enter limit entry callee s = .overflow ↔
      ∃ t, entry.opens limit s = some t ∧ callee t = .overflow := by
  cases entry with
  | plain => simp [enter, Entry.opens]
  | guarded =>
    simp only [enter, enter_recursion, Entry.opens]
    split
    · simp [Parser.recursion_limit_exceeded]
    · split <;> simp_all
  | set modes =>
    simp only [enter, with_modes, Entry.opens, Option.some.injEq, exists_eq_left']
    induction modes generalizing s with
    | nil => rfl
    | cons assignment modes ih => exact (with_mode_overflow_iff _ _).trans ih
  | attempt _ | probe | owned =>
    simp only [enter, attempt, probe, own, Entry.opens, Option.some.injEq, exists_eq_left']
    split <;> simp_all

theorem enter_query_overflow_iff (grouping : Bool) {callee : Bool → Parser → Outcome α} :
    enter_query limit grouping callee s = .overflow ↔
      s.recursion_depth < limit ∧
        callee (s.arm_query grouping).paren_query_grouping (s.enter_armed grouping) =
          .overflow := by
  simp only [enter_query, Parser.enter_armed]
  split
  · simp only [Parser.recursion_limit_exceeded, reduceCtorEq, false_iff]
    omega
  · split <;> simp_all

/-- Where a stack is too small for a program, it is so for one of its calls. -/
theorem exists_calls_of_overflow {Proc : Type} {Ret : Proc → Type}
    {callee : (p : Proc) → Parser → Outcome (Ret p)} {program : Method Ret α}
    (hrun : program.run source limit callee s = .overflow) :
    ∃ frame t, Calls source limit callee program s frame t ∧
      callee frame.proc t = .overflow := by
  induction program generalizing s with
  | pure a => cases hrun
  | act action k ih =>
    obtain hstep | ⟨reply, s', trail, hstep, hrest⟩ := bind_overflow_iff.mp hrun
    · exact absurd hstep (perform_ne_overflow action)
    · obtain ⟨frame, t, hcalls, hcallee⟩ := ih reply hrest
      exact ⟨frame, t, .act hstep hcalls, hcallee⟩
  | call entry p k ih =>
    obtain hcall | ⟨reply, s', trail, hcall, hrest⟩ := bind_overflow_iff.mp hrun
    · obtain ⟨t, hopens, hcallee⟩ := enter_overflow_iff.mp hcall
      exact ⟨⟨entry.is_guarded, p⟩, t, .here hopens, hcallee⟩
    · obtain ⟨frame, t, hcalls, hcallee⟩ := ih reply hrest
      exact ⟨frame, t, .past hcall hcalls, hcallee⟩
  | query grouping p k ih =>
    obtain hcall | ⟨reply, s', trail, hcall, hrest⟩ := bind_overflow_iff.mp hrun
    · obtain ⟨hroom, hquery⟩ := (enter_query_overflow_iff grouping).mp hcall
      obtain hcallee | ⟨a, s', trail, hdone, hrest⟩ := bind_overflow_iff.mp hquery
      · exact ⟨_, _, .here_query hroom, hcallee⟩
      · cases hrest
    · obtain ⟨frame, t, hcalls, hcallee⟩ := ih reply.1 reply.2 hrest
      exact ⟨frame, t, .past_query hcall hcalls, hcallee⟩

/-- A call for which the stack is too small makes it too small for the program, on whatever stack
the calls before it came to their end. -/
theorem overflow_of_calls {Proc : Type} {Ret : Proc → Type}
    {callee callee' : (p : Proc) → Parser → Outcome (Ret p)} {program : Method Ret α}
    {frame : Frame Proc} (hcompatible : ∀ p s, (callee p s).Compatible (callee' p s))
    (hcalls : Calls source limit callee' program s frame t)
    (hcallee : callee frame.proc t = .overflow) :
    program.run source limit callee s = .overflow := by
  induction hcalls with
  | @act action k s s' t trail reply frame hstep hrest ih =>
    exact bind_overflow_iff.mpr (.inr ⟨reply, s', trail, hstep, ih hcallee⟩)
  | @past entry p k s s' t trail reply frame hcall hrest ih =>
    apply bind_overflow_iff.mpr
    obtain h | h | h := enter_compatible entry (hcompatible p) s
    · exact .inl h
    · rw [hcall] at h
      cases h
    · exact .inr ⟨reply, s', trail, h.trans hcall, ih hcallee⟩
  | here hopens => exact bind_overflow_iff.mpr (.inl (enter_overflow_iff.mpr ⟨_, hopens, hcallee⟩))
  | @past_query grouping p k s s' t trail reply frame hcall hrest ih =>
    have hquery : ∀ taken s,
        Outcome.Compatible
          ((callee (p taken) s).bind fun a s => .done (.ok (⟨taken, a⟩ : Σ t, Ret (p t))) s {})
          ((callee' (p taken) s).bind fun a s => .done (.ok (⟨taken, a⟩ : Σ t, Ret (p t))) s {}) :=
      fun taken s => bind_compatible (hcompatible (p taken) s) fun _ _ => .inr (.inr rfl)
    apply bind_overflow_iff.mpr
    obtain h | h | h := enter_query_compatible grouping hquery s
    · exact .inl h
    · rw [hcall] at h
      cases h
    · exact .inr ⟨reply, s', trail, h.trans hcall, ih hcallee⟩
  | here_query hroom =>
    apply bind_overflow_iff.mpr
    exact .inl ((enter_query_overflow_iff _).mpr ⟨hroom, bind_overflow_iff.mpr (.inl hcallee)⟩)

/-- A stack is too small for a run exactly when that many calls are open inside each other at some
time of it. -/
theorem exec_overflow_iff (G : Grammar) (frames : Nat) (p : G.Proc) (s : Parser) :
    G.exec source limit frames p s = .overflow ↔
      ∃ stack t, Live G source limit p s stack t ∧ stack.length = frames := by
  induction frames generalizing p s with
  | zero => exact ⟨fun _ => ⟨[], s, .top p s, rfl⟩, fun _ => rfl⟩
  | succ frames ih =>
    constructor
    · intro hrun
      obtain ⟨frame, t, hcalls, hcallee⟩ := exists_calls_of_overflow hrun
      obtain ⟨stack, t', hlive, hlength⟩ := (ih frame.proc t).mp hcallee
      exact ⟨frame :: stack, t', .call hcalls hlive, by rw [List.length_cons, hlength]⟩
    · rintro ⟨stack, t, hlive, hlength⟩
      cases hlive with
      | top => cases hlength
      | call hcalls hrest =>
        have hcallee := (ih _ _).mpr ⟨_, _, hrest, Nat.succ.inj hlength⟩
        exact overflow_of_calls (exec_compatible G frames _) hcalls hcallee

end Overflow

/-! ## Ranks -/

section Ranks

variable {Proc : Type} {Ret : Proc → Type} {α β : Type}

/-- Every call of the program is one under the guard, or of a `loose` production, or of one that
ranks below `bound`. -/
def Method.Ranked (rank : Proc → Nat) (loose : Proc → Bool) (bound : Nat) : Method Ret α → Prop
  | .pure _ => True
  | .act _ k => ∀ reply, (k reply).Ranked rank loose bound
  | .call entry p k =>
    (entry.is_guarded ∨ loose p ∨ rank p < bound) ∧ ∀ reply, (k reply).Ranked rank loose bound
  | .query _ _ k => ∀ taken a, (k taken a).Ranked rank loose bound

theorem Method.Ranked.bind {rank : Proc → Nat} {loose : Proc → Bool} {bound : Nat}
    {program : Method Ret α} {f : α → Method Ret β} (hprogram : program.Ranked rank loose bound)
    (hf : ∀ a, (f a).Ranked rank loose bound) : (program.bind f).Ranked rank loose bound := by
  induction program with
  | pure a => exact hf a
  | act action k ih => exact fun reply => ih reply (hprogram reply)
  | call entry p k ih => exact ⟨hprogram.1, fun reply => ih reply (hprogram.2 reply)⟩
  | query grouping p k ih => exact fun taken a => ih taken a (hprogram taken a)

/-- A rank of the productions that falls with every call the guard does not count, apart from the
calls of loose ones. -/
structure Grammar.Ranking (G : Grammar) where
  rank : G.Proc → Nat
  loose : G.Proc → Bool
  top : Nat
  rank_le (p : G.Proc) : rank p ≤ top
  body_ranked (p : G.Proc) : (G.body p).Ranked rank loose (rank p)

variable {source : List Token} {limit : Nat} {s t : Parser}

theorem Calls.ranked {callee : (p : Proc) → Parser → Outcome (Ret p)} {program : Method Ret α}
    {frame : Frame Proc} {rank : Proc → Nat} {loose : Proc → Bool} {bound : Nat}
    (hcalls : Calls source limit callee program s frame t)
    (hprogram : program.Ranked rank loose bound) :
    frame.guarded ∨ loose frame.proc ∨ rank frame.proc < bound := by
  induction hcalls with
  | act hstep hrest ih => exact ih (hprogram _)
  | past hcall hrest ih => exact ih (hprogram.2 _)
  | here hopens => exact hprogram.1
  | past_query hcall hrest ih => exact ih (hprogram _ _)
  | here_query hroom => exact .inl rfl

/-- Between two calls that are guarded or loose there are fewer than the ranks. -/
theorem Live.length_le {G : Grammar} (ranking : G.Ranking) {p : G.Proc}
    {stack : List (Frame G.Proc)} (hlive : Live G source limit p s stack t) :
    stack.length ≤ ranking.rank p + (ranking.top + 1) *
      (stack.countP (·.guarded) + stack.countP (ranking.loose ·.proc)) := by
  induction hlive with
  | top p s => exact Nat.zero_le _
  | @call p s s' t frame stack frames hcall hrest ih =>
    have hranked := hcall.ranked (ranking.body_ranked p)
    have hle := ranking.rank_le frame.proc
    rw [List.length_cons, List.countP_cons, List.countP_cons]
    generalize stack.countP (·.guarded) = guards at ih ⊢
    generalize stack.countP (ranking.loose ·.proc) = nests at ih ⊢
    have hmul : ∀ a b, (ranking.top + 1) * (guards + a + (nests + b)) =
        (ranking.top + 1) * (guards + nests) + (ranking.top + 1) * (a + b) := by
      intro a b
      rw [← Nat.mul_add]
      congr 1
      omega
    rw [hmul]
    cases hguarded : frame.guarded <;> cases hloose : ranking.loose frame.proc <;>
      simp only [hguarded, hloose, Bool.false_eq_true, false_or, if_true, if_false] at hranked ⊢ <;>
      omega

end Ranks

end squonk.parser.method
