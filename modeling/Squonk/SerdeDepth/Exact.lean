import Squonk.SerdeDepth.Limited

/-!
# What the depth limit rejects

A limited deserialization is the unlimited one, up to the first value that is asked for deeper than
the limit.
-/

open serde

namespace squonk.serde_depth

variable {S Val : Type}

/-! ## Depth -/

/-- How an entry point counts: what stands below a terminal is not counted at all, a wrapper is
transparent, and a compound value is a level of its own. -/
inductive Level | terminal | wrapper | compound
  deriving DecidableEq

def level : Request → Level
  | .option | .newtype_struct _ => .wrapper
  | .seq | .tuple _ | .tuple_struct _ _ | .map | .struct _ _ | .enum _ _ | .any | .ignored_any =>
    .compound
  | _ => .terminal

mutual

/-- The compound values that were asked for inside each other, at most. -/
def depth : Read → Nat
  | .mk request reads =>
    match level request with
    | .terminal => 0
    | .wrapper => depths reads
    | .compound => depths reads + 1

def depths : List Read → Nat
  | [] => 0
  | read :: reads => max (depth read) (depths reads)

end

@[simp] theorem depths_nil : depths [] = 0 := rfl

theorem depths_append (reads rest : List Read) :
    depths (reads ++ rest) = max (depths reads) (depths rest) := by
  induction reads with
  | nil => simp
  | cons read reads ih => simp [depths, ih, max_assoc]

theorem depths_singleton (read : Read) : depths [read] = depth read := by simp [depths]

/-! ## Limited runs -/

/-- A run that ended with the error of the limit. -/
def TooDeep {α : Type} (outcome : Option (Except Error (α × S) × List Read)) : Prop :=
  ∃ notes reads, outcome = some (.error ⟨too_deep.message, notes⟩, reads)

/-- `y` is `x`, if `x` stays within the budget, and else it is too deep. -/
def Kept (budget : Nat) {α : Type} (x y : Run S α) : Prop :=
  ∀ s result reads, x s = some (result, reads) →
    if depths reads ≤ budget then y s = some (result, reads) else TooDeep (y s)

variable {α β : Type} {budget : Nat}

theorem kept_lift (result : Except Error α) : Kept (S := S) budget (.lift result) (.lift result) := by
  intro s r reads hrun
  obtain ⟨rfl, rfl⟩ : _ = r ∧ [] = reads := by simpa [Run.lift] using hrun
  rw [depths_nil, if_pos (Nat.zero_le budget)]
  rfl

theorem kept_bind {x y : Run S α} {f g : α → Run S β} (hx : Kept budget x y)
    (hf : ∀ a, Kept budget (f a) (g a)) : Kept budget (x.bind f) (y.bind g) := by
  intro s result reads hrun
  cases hxs : x s with
  | none => simp [Run.bind, hxs] at hrun
  | some outcome =>
    obtain ⟨first, read⟩ := outcome
    have hfirst := hx s first read hxs
    cases first with
    | error e =>
      obtain ⟨rfl, rfl⟩ : _ = result ∧ read = reads := by simpa [Run.bind, hxs] using hrun
      by_cases hle : depths read ≤ budget
      · rw [if_pos hle] at hfirst ⊢
        simp [Run.bind, hfirst]
      · rw [if_neg hle] at hfirst ⊢
        obtain ⟨notes, read', hy⟩ := hfirst
        exact ⟨notes, read', by simp [Run.bind, hy]⟩
    | ok value =>
      obtain ⟨a, t⟩ := value
      obtain ⟨⟨second, rest⟩, hft, heq⟩ : ∃ out, f a t = some out ∧
          (out.1, read ++ out.2) = (result, reads) := by
        simpa [Run.bind, hxs, Option.map_eq_some_iff] using hrun
      obtain ⟨rfl, rfl⟩ := Prod.mk.inj heq
      have hsecond := hf a t second rest hft
      rw [depths_append]
      by_cases hle : depths read ≤ budget
      · rw [if_pos hle] at hfirst
        by_cases hrest : depths rest ≤ budget
        · rw [if_pos hrest] at hsecond
          rw [if_pos (max_le hle hrest)]
          simp [Run.bind, hfirst, hsecond]
        · rw [if_neg hrest] at hsecond
          rw [if_neg (fun hmax => hrest (le_trans (le_max_right _ _) hmax))]
          obtain ⟨notes, rest', hy⟩ := hsecond
          exact ⟨notes, read ++ rest', by simp [Run.bind, hfirst, hy]⟩
      · rw [if_neg hle] at hfirst
        rw [if_neg (fun hmax => hle (le_trans (le_max_left _ _) hmax))]
        obtain ⟨notes, read', hy⟩ := hfirst
        exact ⟨notes, read', by simp [Run.bind, hy]⟩

theorem kept_hand (out : S → Except Error (Handed S α)) {use use' : α → Run S β}
    (huse : ∀ a, Kept budget (use a) (use' a)) : Kept budget (.hand out use) (.hand out use') := by
  intro s result reads hrun
  cases hout : out s with
  | error e =>
    obtain ⟨rfl, rfl⟩ : _ = result ∧ [] = reads := by simpa [Run.hand, hout] using hrun
    rw [depths_nil, if_pos (Nat.zero_le budget)]
    simp [Run.hand, hout]
  | ok handed =>
    cases hused : use handed.value handed.state with
    | none => simp [Run.hand, hout, hused] at hrun
    | some outcome =>
      obtain ⟨inner, read⟩ := outcome
      have hkept := huse handed.value handed.state inner read hused
      have hread : read = reads := by
        cases inner <;> simp [Run.hand, hout, hused] at hrun <;> exact hrun.2
      subst hread
      by_cases hle : depths read ≤ budget
      · rw [if_pos hle] at hkept ⊢
        rw [← hrun]
        simp [Run.hand, hout, hkept, hused]
      · rw [if_neg hle] at hkept ⊢
        obtain ⟨notes, read', hy⟩ := hkept
        exact ⟨handed.note ⟨too_deep.message, notes⟩, read', by simp [Run.hand, hout, hy]⟩

theorem compatible_kept (budget : Nat) : Compatible (S := S) (Kept budget) where
  lift := kept_lift
  bind := kept_bind
  hand := kept_hand
  ask := by
    intro α β look f g hf s
    exact hf (look s) s
  pass := by
    intro α step x y hx s result reads hrun
    cases hstep : step s with
    | error e =>
      have hfail : Kept budget (Run.lift (.error e : Except Error α)) (Run.lift (.error e)) :=
        kept_lift (S := S) _
      simp only [Run.pass, hstep] at hrun ⊢
      exact hfail s result reads hrun
    | ok s' =>
      simp only [Run.pass, hstep] at hrun ⊢
      exact hx s' result reads hrun

/-! ## Levels -/

theorem inside_eq_some {request : Request} {x : Run S α} {s : S}
    {result : Except Error (α × S)} {reads : List Read}
    (hrun : Run.inside request x s = some (result, reads)) :
    ∃ inner, x s = some (result, inner) ∧ reads = [.mk request inner] := by
  obtain ⟨⟨result', inner⟩, hx, heq⟩ := Option.map_eq_some_iff.mp hrun
  obtain ⟨rfl, rfl⟩ := Prod.mk.inj heq
  exact ⟨inner, hx, rfl⟩

theorem kept_inside_terminal {request : Request} (hlevel : level request = .terminal)
    (x : Run S α) : Kept budget (.inside request x) (.inside request x) := by
  intro s result reads hrun
  obtain ⟨inner, -, rfl⟩ := inside_eq_some hrun
  rw [if_pos (by simp [depths_singleton, depth, hlevel])]
  exact hrun

theorem kept_inside_wrapper {request : Request} (hlevel : level request = .wrapper)
    {x y : Run S α} (hxy : Kept budget x y) :
    Kept budget (.inside request x) (.inside request y) := by
  intro s result reads hrun
  obtain ⟨inner, hx, rfl⟩ := inside_eq_some hrun
  have hkept := hxy s result inner hx
  rw [depths_singleton, depth, hlevel]
  by_cases hle : depths inner ≤ budget
  · rw [if_pos hle] at hkept ⊢
    simp [Run.inside, hkept]
  · rw [if_neg hle] at hkept ⊢
    obtain ⟨notes, inner', hy⟩ := hkept
    exact ⟨notes, _, by simp only [Run.inside, hy, Option.map_some]; rfl⟩

theorem kept_inside_compound {request : Request} (hlevel : level request = .compound)
    {x y : Run S α} (hxy : Kept budget x y) :
    Kept (budget + 1) (.inside request x) (.inside request y) := by
  intro s result reads hrun
  obtain ⟨inner, hx, rfl⟩ := inside_eq_some hrun
  have hkept := hxy s result inner hx
  rw [depths_singleton, depth, hlevel]
  by_cases hle : depths inner ≤ budget
  · rw [if_pos hle] at hkept
    rw [if_pos (by simpa using hle)]
    simp [Run.inside, hkept]
  · rw [if_neg hle] at hkept
    rw [if_neg (by simpa using hle)]
    obtain ⟨notes, inner', hy⟩ := hkept
    exact ⟨notes, _, by simp only [Run.inside, hy, Option.map_some]; rfl⟩

/-- Where nothing is left of the budget, no compound value is read. -/
theorem kept_zero {request : Request} (hlevel : level request = .compound) (x : Run S α)
    (f : α → Run S β) : Kept 0 ((Run.inside request x).bind f) (.fail too_deep) := by
  intro s result reads hrun
  have hdeep : 0 < depths reads := by
    cases hx : Run.inside request x s with
    | none => simp [Run.bind, hx] at hrun
    | some outcome =>
      obtain ⟨first, read⟩ := outcome
      obtain ⟨inner, -, rfl⟩ := inside_eq_some hx
      have hread : ∃ rest, reads = [.mk request inner] ++ rest := by
        cases first with
        | error e =>
          have hends : .error e = result ∧ [Read.mk request inner] = reads := by
            simpa [Run.bind, hx] using hrun
          exact ⟨[], by rw [← hends.2, List.append_nil]⟩
        | ok value =>
          simp only [Run.bind, hx, Option.map_eq_some_iff] at hrun
          obtain ⟨out, -, heq⟩ := hrun
          exact ⟨out.2, (Prod.mk.inj heq).2.symm⟩
      obtain ⟨rest, rfl⟩ := hread
      rw [depths_append, depths_singleton, depth, hlevel]
      simp
  rw [if_neg (by omega)]
  exact ⟨[], [], rfl⟩

/-! ## The limited client -/

section Client

variable (F : Format S) (C : Client Val)

theorem expecting_plain (visitor : C.Visitor) :
    ((limited C).visitor (.plain visitor)).expecting = (C.visitor visitor).expecting := rfl

theorem expecting_depth (visitor : C.Visitor) (budget : Nat) :
    ((limited C).visitor (.depth visitor budget)).expecting = (C.visitor visitor).expecting := rfl

theorem seq_depth (reader : C.SeqReader) (budget : Nat) :
    (limited C).seq (.depth reader budget) =
      (C.seq reader).map (Wrapped.depth · budget) (Wrapped.depth · budget) := by
  show DepthSeqAccess (C.seq reader) budget = _
  cases C.seq reader <;> rfl

theorem map_depth (reader : C.MapReader) (budget : Nat) :
    (limited C).map (.depth reader budget) =
      (C.map reader).map (Wrapped.depth · budget) (Wrapped.depth · budget) := by
  show DepthMapAccess (C.map reader) budget = _
  cases C.map reader <;> rfl

/-- What a call of the client is for the limited client, where nothing is wrapped. -/
def plain_call : Call F C → Call F (limited C)
  | .deserialize program d => .deserialize (program.map .plain) d
  | .visit visitor shown => .visit (.plain visitor) shown
  | .seq reader access => .seq (.plain reader) access
  | .map reader access => .map (.plain reader) access

/-- Below a visitor that is not wrapped there is no limit. -/
theorem exec_plain (fuel : Nat) (call : Call F C) :
    exec F C fuel call = exec F (limited C) fuel (plain_call F C call) := by
  induction fuel generalizing call with
  | zero => rfl
  | succ fuel ih =>
    have hcalls : CallsRelated (fun x y => x = y) (exec F C fuel) (exec F (limited C) fuel)
        Wrapped.plain Wrapped.plain Wrapped.plain Wrapped.plain := by
      constructor
      · intro seed d
        exact ih (.deserialize (C.seed seed) d)
      · intro visitor shown
        exact ih (.visit visitor shown)
      · intro reader access
        exact ih (.seq reader access)
      · intro reader access
        exact ih (.map reader access)
    cases call with
    | deserialize program d =>
      simp only [exec, run_call, plain_call, Program.map]
      cases program (F.is_human_readable d) with
      | error e => rfl
      | ok asked =>
        apply run_asked_related compatible_eq hcalls
        · intro request x y hxy
          rw [hxy]
        · exact expecting_plain C
    | visit visitor shown =>
      apply run_visit_related compatible_eq hcalls (expecting_plain C)
      · intro value
        rfl
      · intro d
        exact ih (.deserialize (C.visitor visitor).visit_some d)
      · intro d
        exact ih (.deserialize (C.visitor visitor).visit_newtype_struct d)
      · rfl
      · rfl
      · rfl
    | seq reader access => exact run_seq_related compatible_eq hcalls access (C.seq reader)
    | map reader access => exact run_map_related compatible_eq hcalls access (C.map reader)

/-- Visitors that read narrow numbers and characters as every visitor does that has no methods of
its own for them. -/
def NarrowAsWide : Prop :=
  ∀ visitor value, (C.visitor visitor).visit_scalar (DepthVisitor.shown value) =
    (C.visitor visitor).visit_scalar value

/-- What a call of the client is for the limited client, wrapped with a budget. -/
def depth_call (budget : Nat) : Call F C → Call F (limited C)
  | .deserialize program d => .deserialize (DepthLimited.deserialize budget program) d
  | .visit visitor shown => .visit (.depth visitor budget) shown
  | .seq reader access => .seq (.depth reader budget) access
  | .map reader access => .map (.depth reader budget) access

theorem visitor_terminal {Visitor : Type} (budget : Nat) (visitor : Visitor) {request : Request}
    (hlevel : level request = .terminal) :
    DepthLimited.visitor budget visitor request = .ok (.plain visitor) := by
  cases request <;> first | rfl | cases hlevel

theorem visitor_wrapper {Visitor : Type} (budget : Nat) (visitor : Visitor) {request : Request}
    (hlevel : level request = .wrapper) :
    DepthLimited.visitor budget visitor request = .ok (.depth visitor budget) := by
  cases request <;> first | rfl | cases hlevel

theorem visitor_compound {Visitor : Type} (visitor : Visitor) {request : Request}
    (hlevel : level request = .compound) :
    DepthLimited.visitor 0 visitor request = .error too_deep ∧
      ∀ budget, DepthLimited.visitor (budget + 1) visitor request =
        .ok (.depth visitor budget) := by
  cases request <;> first | exact ⟨rfl, fun _ => rfl⟩ | cases hlevel

variable {F C}

/-- The limited client asks what the client asks, if its budget allows. -/
theorem deserialize_kept {fuel : Nat} (ih : ∀ budget call,
      Kept budget (exec F C fuel call) (exec F (limited C) fuel (depth_call F C budget call)))
    (budget : Nat) (program : Program C.Visitor Val) (d : F.Deserializer) :
    Kept budget (exec F C (fuel + 1) (.deserialize program d))
      (exec F (limited C) (fuel + 1)
        (.deserialize (DepthLimited.deserialize budget program) d)) := by
  simp only [exec, run_call, DepthLimited.deserialize]
  cases hprogram : program (F.is_human_readable d) with
  | error e => exact kept_lift _
  | ok asked =>
    have hvisit (budget : Nat) (out : S → Except Error (Handed S _)) :
        Kept budget (Run.hand out fun shown => exec F C fuel (.visit asked.visitor shown))
          (Run.hand out fun shown => exec F (limited C) fuel
            (.visit (.depth asked.visitor budget) shown)) := by
      apply kept_hand
      intro shown
      exact ih budget (.visit asked.visitor shown)
    have hfinish (budget : Nat) (value : Val) :
        Kept (S := S) budget (.lift (asked.finish value)) (.lift (asked.finish value)) :=
      kept_lift _
    cases hlevel : level asked.request with
    | terminal =>
      simp only [visitor_terminal budget asked.visitor hlevel, Except.map]
      have hplain (shown) : exec F (limited C) fuel (.visit (.plain asked.visitor) shown) =
          exec F C fuel (.visit asked.visitor shown) :=
        (exec_plain F C fuel (.visit asked.visitor shown)).symm
      simp only [run_asked, expecting_plain, hplain]
      exact kept_bind (kept_inside_terminal hlevel _) (hfinish budget)
    | wrapper =>
      simp only [visitor_wrapper budget asked.visitor hlevel, Except.map]
      exact kept_bind (kept_inside_wrapper hlevel (hvisit budget _)) (hfinish budget)
    | compound =>
      obtain ⟨hspent, hleft⟩ := visitor_compound asked.visitor hlevel
      cases budget with
      | zero =>
        simp only [hspent, Except.map]
        exact kept_zero hlevel _ _
      | succ budget =>
        simp only [hleft, Except.map]
        exact kept_bind (kept_inside_compound hlevel (hvisit budget _)) (hfinish (budget + 1))

/-- A limited run is the unlimited one, up to the first value that is asked for too deep. -/
theorem exec_kept (hnarrow : NarrowAsWide C) (fuel budget : Nat) (call : Call F C) :
    Kept budget (exec F C fuel call) (exec F (limited C) fuel (depth_call F C budget call)) := by
  induction fuel generalizing budget call with
  | zero =>
    intro s result reads hrun
    cases hrun
  | succ fuel ih =>
    have hcalls : CallsRelated (Kept budget) (exec F C fuel) (exec F (limited C) fuel)
        (Wrapped.depth · budget) (Wrapped.depth · budget) (Wrapped.depth · budget)
        (Wrapped.depth · budget) := by
      constructor
      · intro seed d
        exact ih budget (.deserialize (C.seed seed) d)
      · intro visitor shown
        exact ih budget (.visit visitor shown)
      · intro reader access
        exact ih budget (.seq reader access)
      · intro reader access
        exact ih budget (.map reader access)
    have hcompatible := compatible_kept (S := S) budget
    cases call with
    | deserialize program d => exact deserialize_kept ih budget program d
    | visit visitor shown =>
      apply run_visit_related hcompatible hcalls (fun visitor => expecting_depth C visitor budget)
      · exact hnarrow visitor
      · intro d
        exact ih budget (.deserialize (C.visitor visitor).visit_some d)
      · intro d
        exact ih budget (.deserialize (C.visitor visitor).visit_newtype_struct d)
      · rfl
      · rfl
      · rfl
    | seq reader access =>
      show Kept budget _ (run_seq F (limited C) _ access ((limited C).seq (.depth reader budget)))
      rw [seq_depth]
      exact run_seq_related hcompatible hcalls access (C.seq reader)
    | map reader access =>
      show Kept budget _ (run_map F (limited C) _ access ((limited C).map (.depth reader budget)))
      rw [map_depth]
      exact run_map_related hcompatible hcalls access (C.map reader)

end Client

end squonk.serde_depth
