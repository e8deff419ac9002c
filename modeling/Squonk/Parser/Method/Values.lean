import Squonk.Parser.Method.Frame

/-!
# What a run returns

No run leaves a mode flag otherwise than it found it, so that one value of the flag goes through a
whole program. What a step and a call may answer under it decides what the program may return, and
a claim on the answers of all productions that every body keeps holds of every run.
-/

open squonk.tokenizer

namespace squonk.parser.method

section Answers

variable (source : List Token) (flag : Mode)

/-- What a step may answer while the flag is `value`. -/
def Action.Answers (value : Bool) : (action : Action) → action.Reply → Prop
  | .look test, reply => ∃ ts, ts <:+: source ∧ reply = test ts
  | .mode asked, reply => asked = flag → reply = value
  | _, _ => True

/-- The value of the flag in the call. -/
def Entry.value (value : Bool) : Entry → Bool
  | .set modes => modes.foldl (fun value (mode, on) => if mode = flag then on else value) value
  | _ => value

/-- What a call may answer where the production answers what `R` says. -/
def Entry.Answers {α : Type} (R : Bool → α → Prop) (value : Bool) :
    (entry : Entry) → entry.Reply α → Prop
  | .plain, reply => R value reply
  | .guarded, reply => R value reply
  | .set modes, reply => R (Entry.value flag value (.set modes)) reply
  | .attempt _, reply => ∀ a, reply = some a → R value a
  | .probe, _ => True
  | .owned, reply => R value reply.1

end Answers

namespace Method

variable {Proc : Type} {Ret : Proc → Type} {α β : Type}

/-- A program returns what `Q` says while the flag is `value`, where the productions return what `R`
says. -/
def Returns (source : List Token) (flag : Mode) (R : Bool → (p : Proc) → Ret p → Prop)
    (value : Bool) : Method Ret α → (α → Prop) → Prop
  | .pure a, Q => Q a
  | .act action k, Q => ∀ reply, action.Answers source flag value reply →
      (k reply).Returns source flag R value Q
  | .call entry p k, Q => ∀ reply, entry.Answers flag (fun value => R value p) value reply →
      (k reply).Returns source flag R value Q
  | .query _ p k, Q => ∀ taken a, R value (p taken) a →
      (k taken a).Returns source flag R value Q

variable {source : List Token} {flag : Mode} {R : Bool → (p : Proc) → Ret p → Prop} {value : Bool}
variable {program : Method Ret α} {f : α → Method Ret β} {P : α → Prop} {Q : β → Prop}

theorem Returns.bind (h : program.Returns source flag R value P)
    (hf : ∀ a, P a → (f a).Returns source flag R value Q) :
    (program >>= f).Returns source flag R value Q := by
  show (program.bind f).Returns source flag R value Q
  induction program with
  | pure a => exact hf a h
  | act action k ih => exact fun reply hreply => ih reply (h reply hreply)
  | call entry p k ih => exact fun reply hreply => ih reply (h reply hreply)
  | query grouping p k ih => exact fun taken a ha => ih taken a (h taken a ha)

/-- Nothing is claimed of what is returned. -/
theorem Returns.any (program : Method Ret α) :
    program.Returns source flag R value fun _ => True := by
  induction program with
  | pure a => trivial
  | act action k ih => exact fun reply _ => ih reply
  | call entry p k ih => exact fun reply _ => ih reply
  | query grouping p k ih => exact fun taken a _ => ih taken a

theorem Returns.bind_any (hf : ∀ a, (f a).Returns source flag R value Q) :
    (program >>= f).Returns source flag R value Q :=
  (Returns.any program).bind fun a _ => hf a

theorem Returns.imp {P' : α → Prop} (h : program.Returns source flag R value P)
    (himp : ∀ a, P a → P' a) : program.Returns source flag R value P' := by
  induction program with
  | pure a => exact himp a h
  | act action k ih => exact fun reply hreply => ih reply (h reply hreply)
  | call entry p k ih => exact fun reply hreply => ih reply (h reply hreply)
  | query grouping p k ih => exact fun taken a ha => ih taken a (h taken a ha)

theorem Returns.pure {a : α} (h : P a) :
    (Pure.pure a : Method Ret α).Returns source flag R value P := h

theorem Returns.step (action : Action) :
    (Method.step action : Method Ret action.Reply).Returns source flag R value
      (action.Answers source flag value) := fun _ hreply => hreply

theorem Returns.invoke (entry : Entry) (p : Proc) :
    (Method.invoke entry p : Method Ret _).Returns source flag R value
      (entry.Answers flag (fun value => R value p) value) := fun _ hreply => hreply

end Method

/-! ## Runs that meet a condition -/

/-- Whether `rest` holds of what a run ends with, where it ends well. -/
def Outcome.and_then {α : Type} (x : Outcome α) (rest : α → Parser → Bool) : Bool :=
  match x with
  | .done (.ok a) s _ => rest a s
  | _ => true

theorem Outcome.and_then_ok {α : Type} {x : Outcome α} {rest : α → Parser → Bool} {a : α}
    {s : Parser} {trail : Trail} (h : x = .done (.ok a) s trail) : x.and_then rest = rest a s := by
  subst h
  rfl

section Conditions

variable (limit : Nat)

/-- Whether `meets` holds of the state in which a call starts, if it does and is not a probe. -/
def Entry.enters (meets : Parser → Bool) : Entry → Parser → Bool
  | .guarded, s =>
    if s.recursion_depth ≥ limit then true
    else meets { s with recursion_depth := s.recursion_depth + 1 }
  | .set modes, s => meets (modes.foldl (fun s (mode, on) => s.set_mode mode on) s)
  | .probe, _ => true
  | _, s => meets s

def enters_query (grouping : Bool) (meets : Bool → Parser → Bool) (s : Parser) : Bool :=
  let armed := s.arm_query grouping
  if s.recursion_depth ≥ limit then true
  else meets armed.paren_query_grouping
    { armed with paren_query_grouping := false, recursion_depth := s.recursion_depth + 1 }

/-- Whether every call of a run starts in a state of which `meets` holds, but for the probes. -/
def Method.throughout {Proc : Type} {Ret : Proc → Type} {α : Type} (source : List Token)
    (callee : (p : Proc) → Parser → Outcome (Ret p)) (meets : Proc → Parser → Bool) :
    Method Ret α → Parser → Bool
  | .pure _, _ => true
  | .act action k, s =>
    (perform source action s).and_then fun reply => (k reply).throughout source callee meets
  | .call entry p k, s =>
    entry.enters limit (meets p) s && (enter limit entry (callee p) s).and_then fun reply =>
      (k reply).throughout source callee meets
  | .query grouping p k, s =>
    enters_query limit grouping (fun taken => meets (p taken)) s &&
      (enter_query limit grouping (fun taken s =>
        (callee (p taken) s).bind fun a s => .done (.ok (⟨taken, a⟩ : Σ t, Ret (p t))) s {}) s).and_then
        fun reply => (k reply.1 reply.2).throughout source callee meets

/-- Whether `meets` holds wherever a run of a production enters one, outside of the probes. -/
def Grammar.throughout (G : Grammar) (source : List Token) (meets : G.Proc → Parser → Bool) :
    Nat → G.Proc → Parser → Bool
  | 0, _, _ => true
  | frames + 1, p, s =>
    meets p s && (G.body p).throughout limit source (G.exec source limit frames)
      (G.throughout source meets frames) s

end Conditions

/-! ## Runs -/

theorem Outcome.bind_eq_ok {α β : Type} {x : Outcome α} {f : α → Parser → Outcome β} {b : β}
    {s : Parser} {trail : Trail} (h : x.bind f = .done (.ok b) s trail) :
    ∃ a t first rest, x = .done (.ok a) t first ∧ f a t = .done (.ok b) s rest := by
  cases x with
  | overflow => cases h
  | done result t first =>
    cases result with
    | error e => cases h
    | ok a =>
      rw [Outcome.bind] at h
      cases hf : f a t with
      | overflow =>
        rw [hf] at h
        cases h
      | done result s' rest =>
        rw [hf] at h
        cases h
        exact ⟨a, t, first, rest, rfl, hf⟩

theorem Framed.flag {flag : Mode} (hflag : flag ≠ .InConnectBy) {s s' : Parser}
    {error : Option ParseError} {trail : Trail} (h : Framed s error s' trail) :
    s'.modes flag = s.modes flag :=
  h.modes flag (.inl hflag)

theorem Outcome.Sat.framed {α : Type} {x : Outcome α} {s s' : Parser}
    {result : Except ParseError α} {trail : Trail} (h : x.Sat Framed s)
    (hx : x = .done result s' trail) : Framed s (error? result) s' trail := by
  subst hx
  exact h

section Runs

variable {source : List Token} {limit : Nat} {flag : Mode} {s s' : Parser} {trail : Trail}

theorem ahead_infix (s : Parser) : s.ahead source <:+: source :=
  (List.takeWhile_prefix _).isInfix.trans (List.drop_suffix _ _).isInfix

theorem perform_answers {action : Action} {reply : action.Reply}
    (h : perform source action s = .done (.ok reply) s' trail) :
    action.Answers source flag (s.modes flag) reply := by
  cases action with
  | look test =>
    cases h
    exact ⟨s.ahead source, ahead_infix s, rfl⟩
  | mode mode =>
    cases h
    intro hmode
    rw [hmode]
  | advance => trivial
  | clause kind head => trivial
  | expect_angle_gt expected => trivial
  | unexpected expected => trivial

theorem set_modes_value (modes : List (Mode × Bool)) (s : Parser) {α : Type}
    {callee : Parser → Outcome α} {R : Bool → α → Prop} {meets : Parser → Bool}
    (hcallee : ∀ s a s' trail, meets s = true → callee s = .done (.ok a) s' trail →
      R (s.modes flag) a) (hmeets : Entry.enters limit meets (.set modes) s = true) {a : α}
    (h : with_modes modes callee s = .done (.ok a) s' trail) :
    R (Entry.value flag (s.modes flag) (.set modes)) a := by
  induction modes generalizing s s' trail with
  | nil => exact hcallee s a s' trail hmeets h
  | cons assignment modes ih =>
    obtain ⟨mode, set⟩ := assignment
    have hstep : with_mode mode set (with_modes modes callee) s = .done (.ok a) s' trail := h
    rw [with_mode] at hstep
    cases hinner : with_modes modes callee (s.set_mode mode set) with
    | overflow =>
      rw [hinner] at hstep
      cases hstep
    | done result t rest =>
      rw [hinner] at hstep
      cases hstep
      have hvalue := ih (s.set_mode mode set) hmeets hinner
      have hset : (s.set_mode mode set).modes flag = if mode = flag then set else s.modes flag := by
        show (if flag = mode then set else s.modes flag) = _
        by_cases hmode : mode = flag
        · rw [if_pos hmode, if_pos hmode.symm]
        · rw [if_neg hmode, if_neg (Ne.symm hmode)]
      rw [hset] at hvalue
      exact hvalue

theorem enter_answers {α : Type} {callee : Parser → Outcome α} {R : Bool → α → Prop}
    {meets : Parser → Bool}
    (hcallee : ∀ s a s' trail, meets s = true → callee s = .done (.ok a) s' trail →
      R (s.modes flag) a)
    {entry : Entry} (hmeets : entry.enters limit meets s = true) {reply : entry.Reply α}
    (h : enter limit entry callee s = .done (.ok reply) s' trail) :
    entry.Answers flag R (s.modes flag) reply := by
  cases entry with
  | plain => exact hcallee s reply s' trail hmeets h
  | guarded =>
    simp only [enter, enter_recursion] at h
    split at h
    · cases h
    · next hroom =>
      have hentered : meets { s with recursion_depth := s.recursion_depth + 1 } = true := by
        rw [Entry.enters, if_neg hroom] at hmeets
        exact hmeets
      cases hinner : callee { s with recursion_depth := s.recursion_depth + 1 } with
      | overflow =>
        rw [hinner] at h
        cases h
      | done result t rest =>
        rw [hinner] at h
        cases h
        exact hcallee { s with recursion_depth := s.recursion_depth + 1 } reply _ _ hentered hinner
  | set modes => exact set_modes_value modes s hcallee hmeets h
  | attempt truncating =>
    intro a ha
    subst ha
    simp only [enter, attempt] at h
    cases hinner : callee s with
    | overflow =>
      rw [hinner] at h
      cases h
    | done result t rest =>
      rw [hinner] at h
      cases result with
      | error e => cases h
      | ok b =>
        cases h
        exact hcallee _ _ _ _ hmeets hinner
  | probe => trivial
  | owned =>
    simp only [enter, own] at h
    cases hinner : callee s with
    | overflow =>
      rw [hinner] at h
      cases h
    | done result t rest =>
      rw [hinner] at h
      cases result with
      | error e => cases h
      | ok b =>
        cases h
        exact hcallee _ _ _ _ hmeets hinner

theorem enter_query_answers {α : Type} {grouping : Bool} {callee : Bool → Parser → Outcome α}
    {meets : Bool → Parser → Bool} (hflag : flag ≠ .InConnectBy)
    (hmeets : enters_query limit grouping meets s = true) {a : α}
    (h : enter_query limit grouping callee s = .done (.ok a) s' trail) :
    ∃ taken t t' rest, t.modes flag = s.modes flag ∧ meets taken t = true ∧
      callee taken t = .done (.ok a) t' rest := by
  simp only [enter_query] at h
  split at h
  · cases h
  · next hroom =>
    let entered : Parser :=
      { s.arm_query grouping with
        paren_query_grouping := false, recursion_depth := s.recursion_depth + 1 }
    have hentered : meets (s.arm_query grouping).paren_query_grouping entered = true := by
      rw [enters_query, if_neg hroom] at hmeets
      exact hmeets
    cases hinner : callee (s.arm_query grouping).paren_query_grouping entered with
    | overflow =>
      rw [hinner] at h
      cases h
    | done result t rest =>
      rw [hinner] at h
      cases h
      refine ⟨(s.arm_query grouping).paren_query_grouping, entered, t, rest, ?_, hentered, hinner⟩
      show (if flag = Mode.InConnectBy then false else s.modes flag) = s.modes flag
      rw [if_neg hflag]

theorem Method.Returns.of_run {Proc : Type} {Ret : Proc → Type} {α : Type}
    {callee : (p : Proc) → Parser → Outcome (Ret p)} {meets : Proc → Parser → Bool}
    {R : Bool → (p : Proc) → Ret p → Prop}
    (hflag : flag ≠ .InConnectBy) (hframed : ∀ p s, (callee p s).Sat Framed s)
    (hcallee : ∀ p s a s' trail, meets p s = true → callee p s = .done (.ok a) s' trail →
      R (s.modes flag) p a)
    {program : Method Ret α} {Q : α → Prop}
    (h : program.Returns source flag R (s.modes flag) Q)
    (hmeets : program.throughout limit source callee meets s = true) {a : α}
    (hrun : program.run source limit callee s = .done (.ok a) s' trail) : Q a := by
  have rule := framed_rule source limit
  induction program generalizing s trail with
  | pure b =>
    cases hrun
    exact h
  | act action k ih =>
    obtain ⟨reply, t, first, rest, hreply, hrest⟩ := Outcome.bind_eq_ok hrun
    have hkept := ((rule.perform action s).framed hreply).flag hflag
    rw [Method.throughout, Outcome.and_then_ok hreply] at hmeets
    apply ih reply ?_ hmeets hrest
    rw [hkept]
    exact h reply (perform_answers hreply)
  | call entry p k ih =>
    obtain ⟨reply, t, first, rest, hreply, hrest⟩ := Outcome.bind_eq_ok hrun
    have hkept := ((rule.enter entry (hframed p) s).framed hreply).flag hflag
    rw [Method.throughout, Outcome.and_then_ok hreply, Bool.and_eq_true] at hmeets
    apply ih reply ?_ hmeets.2 hrest
    rw [hkept]
    exact h reply (enter_answers (R := fun value => R value p) (hcallee p) hmeets.1 hreply)
  | query grouping p k ih =>
    obtain ⟨reply, t, first, rest, hreply, hrest⟩ := Outcome.bind_eq_ok hrun
    have hinner : ∀ taken s, Outcome.Sat Framed s ((callee (p taken) s).bind fun a s =>
        .done (.ok (⟨taken, a⟩ : Σ taken, Ret (p taken))) s {}) := by
      intro taken s
      exact rule.bind (hframed (p taken) s) fun _ s => rule.pure s
    have hkept := ((rule.enter_query grouping hinner s).framed hreply).flag hflag
    rw [Method.throughout, Outcome.and_then_ok hreply, Bool.and_eq_true] at hmeets
    apply ih reply.1 reply.2 ?_ hmeets.2 hrest
    rw [hkept]
    obtain ⟨taken, u, u', more, hu, hentered, hcall⟩ :=
      enter_query_answers hflag hmeets.1 hreply
    obtain ⟨b, v, first, rest, hb, hpure⟩ := Outcome.bind_eq_ok hcall
    cases hpure
    have hvalue := hcallee (p taken) u b _ _ hentered hb
    rw [hu] at hvalue
    exact h taken b hvalue

/-- A claim on the answers of the productions that every body keeps where it may be entered holds of
every run that enters no other. -/
theorem Grammar.returns {G : Grammar} {R : Bool → (p : G.Proc) → G.Ret p → Prop}
    {meets : Bool → G.Proc → Bool} (hflag : flag ≠ .InConnectBy)
    (hbody : ∀ value p, meets value p = true →
      (G.body p).Returns source flag R value (R value p)) {frames : Nat} {p : G.Proc}
    (hmeets : G.throughout limit source (fun p s => meets (s.modes flag) p) frames p s = true)
    {a : G.Ret p} (hrun : G.exec source limit frames p s = .done (.ok a) s' trail) :
    R (s.modes flag) p a := by
  induction frames generalizing p s s' trail with
  | zero => cases hrun
  | succ frames ih =>
    rw [Grammar.throughout, Bool.and_eq_true] at hmeets
    apply Method.Returns.of_run hflag ((framed_rule source limit).exec G frames) ?_
      (hbody (s.modes flag) p hmeets.1) hmeets.2 hrun
    intro p s a s' trail hentered h
    exact ih hentered h

end Runs

end squonk.parser.method
