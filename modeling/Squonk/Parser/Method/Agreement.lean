import Squonk.Parser.Method.Runs

/-!
# Runs that agree

Two runs of a production, over two sources or under two limits, are the same as long as the first
of them keeps clear of the events in which they may part. Where the limits differ, it must not end
at its own limit either.
-/

open squonk.tokenizer

namespace squonk.parser.method

/-- The run came to an end without an event that is `bad`, and not at the recursion limit where
that is `tight`. -/
def Outcome.Avoids {α : Type} (bad : Event → Bool) (tight : Bool) : Outcome α → Prop
  | overflow => False
  | done result _ trail =>
    (tight = true → is_limit result = false) ∧ ∀ event ∈ trail.events, bad event = false

instance {α : Type} (bad : Event → Bool) (tight : Bool) (x : Outcome α) :
    Decidable (x.Avoids bad tight) :=
  match x with
  | .overflow => isFalse id
  | .done result _ trail => inferInstanceAs (Decidable
      ((tight = true → is_limit result = false) ∧ ∀ event ∈ trail.events, bad event = false))

/-- What two ways to run have in common. The places that the runs reach are those `within`. -/
structure Alike (source source' : List Token) (limit limit' : Nat) (bad : Event → Bool)
    (tight : Bool) (within : Nat → Prop) : Prop where
  limits : limit ≤ limit'
  loose (hloose : tight = false) : limit' = limit
  swallowed (htight : tight = true) (offset : Nat) : bad (.swallowed offset) = true
  marks (event : Event) (hmark : event.is_mark = true) : bad event = false
  reach : Rule source limit fun s _ s' _ => within s.pos → within s'.pos
  perform (action : Action) (s : Parser) (hwithin : within s.pos)
    (havoids : (perform source action s).Avoids bad tight) :
    perform source' action s = perform source action s

section Steps

variable {α β : Type} {bad : Event → Bool} {tight : Bool}

theorem avoids_after {first : Trail} {x : Outcome α}
    (havoids : (x.after first).Avoids bad tight) :
    (∀ event ∈ first.events, bad event = false) ∧ x.Avoids bad tight := by
  cases x with
  | overflow => exact havoids.elim
  | done result s trail =>
    obtain ⟨hresult, hevents⟩ := havoids
    simp only [List.mem_append] at hevents
    exact ⟨fun event h => hevents event (.inl h), hresult, fun event h => hevents event (.inr h)⟩

theorem bind_agrees {within : Nat → Prop} {s : Parser} {x x' : Outcome α}
    {f f' : α → Parser → Outcome β} (havoids : (x.bind f).Avoids bad tight)
    (hwithin : within s.pos) (hreach : x.Sat (fun s _ s' _ => within s.pos → within s'.pos) s)
    (hx : x.Avoids bad tight → x' = x)
    (hf : ∀ a s, within s.pos → (f a s).Avoids bad tight → f' a s = f a s) :
    x'.bind f' = x.bind f := by
  cases x with
  | overflow => exact havoids.elim
  | done result s' trail =>
    cases result with
    | error e =>
      rw [hx havoids]
      rfl
    | ok a =>
      obtain ⟨hevents, hrest⟩ := avoids_after havoids
      rw [hx ⟨fun _ => rfl, hevents⟩]
      simp only [Outcome.bind, hf a s' (hreach hwithin) hrest]

end Steps

section Calls

variable {α : Type} {source source' : List Token} {limit limit' : Nat} {bad : Event → Bool}
variable {tight : Bool} {within : Nat → Prop}

/-- The first run has room for a level, so the second one has; where it has none, both have
none. -/
theorem Alike.full_iff (alike : Alike source source' limit limit' bad tight within) {s : Parser}
    (hfull : tight = true → ¬ s.recursion_depth ≥ limit) :
    s.recursion_depth ≥ limit' ↔ s.recursion_depth ≥ limit := by
  have hlimits := alike.limits
  cases tight with
  | true =>
    have hroom := hfull rfl
    omega
  | false => rw [alike.loose rfl]

theorem enter_recursion_agrees (alike : Alike source source' limit limit' bad tight within)
    {callee callee' : Parser → Outcome α}
    (hcallee : ∀ s, within s.pos → (callee s).Avoids bad tight → callee' s = callee s)
    (s : Parser) (hwithin : within s.pos)
    (havoids : (enter_recursion limit callee s).Avoids bad tight) :
    enter_recursion limit' callee' s = enter_recursion limit callee s := by
  have hiff := alike.full_iff (s := s) fun htight hfull => by
    rw [enter_recursion, if_pos hfull] at havoids
    cases havoids.1 htight
  unfold enter_recursion at havoids ⊢
  by_cases hfull : s.recursion_depth ≥ limit
  · rw [if_pos hfull, if_pos (hiff.mpr hfull)]
  · rw [if_neg hfull] at havoids
    rw [if_neg hfull, if_neg (fun h => hfull (hiff.mp h))]
    rw [hcallee { s with recursion_depth := s.recursion_depth + 1 } hwithin]
    split at havoids
    · exact havoids.elim
    · next hrun =>
      rw [hrun]
      exact havoids

theorem with_mode_agrees (mode : Mode) (value : Bool) {callee callee' : Parser → Outcome α}
    (hcallee : ∀ s, within s.pos → (callee s).Avoids bad tight → callee' s = callee s)
    (s : Parser) (hwithin : within s.pos)
    (havoids : (with_mode mode value callee s).Avoids bad tight) :
    with_mode mode value callee' s = with_mode mode value callee s := by
  unfold with_mode at havoids ⊢
  rw [hcallee (s.set_mode mode value) hwithin]
  split at havoids
  · exact havoids.elim
  · next hrun =>
    rw [hrun]
    exact havoids

theorem abandon_avoids (alike : Alike source source' limit limit' bad tight within)
    {s s' : Parser} {truncating limited : Bool} {events : List Event}
    (havoids : ∀ event ∈ (abandon s s' truncating limited events).events, bad event = false) :
    (tight = true → limited = false) ∧ ∀ event ∈ events, bad event = false := by
  simp only [abandon, List.mem_append] at havoids
  constructor
  · intro htight
    cases limited with
    | false => rfl
    | true =>
      have hnot := havoids (.swallowed s.pos) (.inl (.inr (List.mem_singleton_self _)))
      rw [alike.swallowed htight] at hnot
      cases hnot
  · intro event hevent
    cases hmark : event.is_mark with
    | true => exact alike.marks event hmark
    | false =>
      apply havoids event
      apply Or.inl
      apply Or.inl
      cases truncating with
      | false => exact hevent
      | true => exact List.mem_filter.mpr ⟨hevent, by simp [hmark]⟩

theorem enter_agrees (alike : Alike source source' limit limit' bad tight within)
    (entry : Entry) {callee callee' : Parser → Outcome α}
    (hcallee : ∀ s, within s.pos → (callee s).Avoids bad tight → callee' s = callee s)
    (s : Parser) (hwithin : within s.pos)
    (havoids : (enter limit entry callee s).Avoids bad tight) :
    enter limit' entry callee' s = enter limit entry callee s := by
  cases entry with
  | plain => exact hcallee s hwithin havoids
  | guarded => exact enter_recursion_agrees alike hcallee s hwithin havoids
  | set modes =>
    simp only [enter, with_modes] at havoids ⊢
    induction modes generalizing s with
    | nil => exact hcallee s hwithin havoids
    | cons assignment modes ih => exact with_mode_agrees _ _ ih s hwithin havoids
  | attempt truncating =>
    simp only [enter, attempt] at havoids ⊢
    rw [hcallee s hwithin]
    split at havoids
    · exact havoids.elim
    · next hrun =>
      rw [hrun]
      exact ⟨fun _ => rfl, havoids.2⟩
    · next hrun =>
      rw [hrun]
      exact abandon_avoids alike havoids.2
  | probe =>
    simp only [enter, probe] at havoids ⊢
    rw [hcallee s hwithin]
    split at havoids
    · exact havoids.elim
    · next hrun =>
      rw [hrun]
      exact abandon_avoids alike havoids.2
  | owned =>
    simp only [enter, own] at havoids ⊢
    rw [hcallee s hwithin]
    split at havoids
    · exact havoids.elim
    · next hrun =>
      rw [hrun]
      exact havoids
    · next hrun =>
      rw [hrun]
      exact ⟨fun _ => rfl, havoids.2⟩

theorem enter_query_agrees (alike : Alike source source' limit limit' bad tight within)
    (grouping : Bool) {callee callee' : Bool → Parser → Outcome α}
    (hcallee : ∀ taken s, within s.pos → (callee taken s).Avoids bad tight →
      callee' taken s = callee taken s)
    (s : Parser) (hwithin : within s.pos)
    (havoids : (enter_query limit grouping callee s).Avoids bad tight) :
    enter_query limit' grouping callee' s = enter_query limit grouping callee s := by
  have hiff := alike.full_iff (s := s) fun htight hfull => by
    rw [enter_query, if_pos hfull] at havoids
    cases havoids.1 htight
  unfold enter_query at havoids ⊢
  simp only at havoids ⊢
  by_cases hfull : s.recursion_depth ≥ limit
  · rw [if_pos hfull, if_pos (hiff.mpr hfull)]
  · rw [if_neg hfull] at havoids
    rw [if_neg hfull, if_neg (fun h => hfull (hiff.mp h))]
    rw [hcallee (s.arm_query grouping).paren_query_grouping
      { s.arm_query grouping with
        paren_query_grouping := false, recursion_depth := s.recursion_depth + 1 } hwithin]
    split at havoids
    · exact havoids.elim
    · next hrun =>
      rw [hrun]
      exact ⟨havoids.1, fun event h => havoids.2 event (List.mem_append_right _ h)⟩

theorem run_agrees {Proc : Type} {Ret : Proc → Type}
    (alike : Alike source source' limit limit' bad tight within)
    {callee callee' : (p : Proc) → Parser → Outcome (Ret p)}
    (hreach : ∀ p s, (callee p s).Sat (fun s _ s' _ => within s.pos → within s'.pos) s)
    (hcallee : ∀ p s, within s.pos → (callee p s).Avoids bad tight → callee' p s = callee p s)
    (program : Method Ret α) (s : Parser) (hwithin : within s.pos)
    (havoids : (program.run source limit callee s).Avoids bad tight) :
    program.run source' limit' callee' s = program.run source limit callee s := by
  induction program generalizing s with
  | pure a => rfl
  | act action k ih =>
    exact bind_agrees havoids hwithin (alike.reach.perform action s)
      (alike.perform action s hwithin) fun reply s' => ih reply s'
  | call entry p k ih =>
    exact bind_agrees havoids hwithin (alike.reach.enter entry (hreach p) s)
      (enter_agrees alike entry (hcallee p) s hwithin) fun reply s' => ih reply s'
  | query grouping p k ih =>
    have hquery : ∀ taken s', Outcome.Sat (fun s _ s' _ => within s.pos → within s'.pos) s'
        ((callee (p taken) s').bind fun a s => .done (.ok (⟨taken, a⟩ : Σ t, Ret (p t))) s {}) :=
      fun taken s' => alike.reach.bind (hreach (p taken) s') fun _ s'' => alike.reach.pure s''
    apply bind_agrees havoids hwithin (alike.reach.enter_query grouping hquery s)
    · apply enter_query_agrees alike grouping _ s hwithin
      intro taken s' hwithin' hinner
      exact bind_agrees hinner hwithin' (hreach (p taken) s') (hcallee (p taken) s' hwithin')
        fun _ _ _ _ => rfl
    · intro reply s'
      exact ih reply.1 reply.2 s'

end Calls

/-- Alike ways to run agree on every run of the first that keeps clear of what is bad. -/
theorem Alike.exec {source source' : List Token} {limit limit' : Nat} {bad : Event → Bool}
    {tight : Bool} {within : Nat → Prop}
    (alike : Alike source source' limit limit' bad tight within) (G : Grammar) (frames : Nat)
    (p : G.Proc) (s : Parser) (hwithin : within s.pos)
    (havoids : (G.exec source limit frames p s).Avoids bad tight) :
    G.exec source' limit' frames p s = G.exec source limit frames p s := by
  induction frames generalizing p s with
  | zero => rfl
  | succ frames ih =>
    exact run_agrees alike (fun p s => alike.reach.exec G frames p s) ih (G.body p) s hwithin
      havoids

end squonk.parser.method
