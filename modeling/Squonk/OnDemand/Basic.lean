import Mathlib.Data.List.Basic

/-!
# Items made on demand

A producer makes items one after the other until it finishes or fails, and notes things on the
side while it does. What it makes at a place, and what it has noted by then, depends on the place
alone, however often and in whatever order it is asked.
-/

namespace on_demand

variable {σ T W E : Type*}

/-- How a turn of a producer ends. -/
inductive Turn (σ T E : Type*)
  | item (t : T) (next : σ)
  | finished
  | fault (e : E)

/-- A producer: what it notes in a turn, and how the turn ends. -/
abbrev Producer (σ T W E : Type*) := σ → List W × Turn σ T E

variable {step : Producer σ T W E}

/-- What stands at a place: an item, nothing behind the last one, or the fault that stopped the
    producer, at every place from where it failed on. -/
def item_at (step : Producer σ T W E) : Nat → σ → Except E (Option T)
  | n, s =>
    match (step s).2 with
    | .finished => .ok none
    | .fault e => .error e
    | .item t next =>
      match n with
      | 0 => .ok (some t)
      | n + 1 => item_at step n next

/-- What is noted in the first `n` turns. -/
def noted (step : Producer σ T W E) : Nat → σ → List W
  | 0, _ => []
  | n + 1, s =>
    (step s).1 ++
      match (step s).2 with
      | .item _ next => noted step n next
      | _ => []

/-- The items made from one state to another. -/
inductive Makes (step : Producer σ T W E) : σ → List T → σ → Prop
  | nil {s : σ} : Makes step s [] s
  | cons {s s' s'' : σ} {t : T} {ts : List T} : (step s).2 = .item t s' → Makes step s' ts s'' →
      Makes step s (t :: ts) s''

/-- The turn ends the production. -/
def Ends (step : Producer σ T W E) (s : σ) : Prop := ∀ t next, (step s).2 ≠ .item t next

theorem item_at_turn (n : Nat) (s : σ) :
    item_at step n s =
      match (step s).2 with
      | .finished => .ok none
      | .fault e => .error e
      | .item t next =>
        match n with
        | 0 => .ok (some t)
        | n + 1 => item_at step n next := by
  rw [item_at]

theorem noted_zero (s : σ) : noted step 0 s = [] := rfl

theorem noted_succ (n : Nat) (s : σ) :
    noted step (n + 1) s =
      (step s).1 ++
        match (step s).2 with
        | .item _ next => noted step n next
        | _ => [] := rfl

theorem item_at_item {s s' : σ} {t : T} (h : (step s).2 = .item t s') (n : Nat) :
    item_at step (n + 1) s = item_at step n s' := by
  rw [item_at_turn, h]

theorem item_at_zero {s s' : σ} {t : T} (h : (step s).2 = .item t s') :
    item_at step 0 s = .ok (some t) := by
  rw [item_at_turn, h]

theorem item_at_finished {s : σ} (h : (step s).2 = .finished) (n : Nat) :
    item_at step n s = .ok none := by
  rw [item_at_turn, h]

theorem item_at_fault {s : σ} {e : E} (h : (step s).2 = .fault e) (n : Nat) :
    item_at step n s = .error e := by
  rw [item_at_turn, h]

theorem noted_item {s s' : σ} {t : T} (h : (step s).2 = .item t s') (n : Nat) :
    noted step (n + 1) s = (step s).1 ++ noted step n s' := by
  rw [noted_succ, h]

/-- Nothing is noted behind the end. -/
theorem noted_ends {s : σ} (h : Ends step s) (n : Nat) : noted step (n + 1) s = (step s).1 := by
  rw [noted_succ]
  split
  · rename_i t next heq
    exact absurd heq (h t next)
  · exact List.append_nil _

theorem ends_finished {s : σ} (h : (step s).2 = .finished) : Ends step s := by
  intro t next heq
  rw [h] at heq
  cases heq

theorem ends_fault {s : σ} {e : E} (h : (step s).2 = .fault e) : Ends step s := by
  intro t next heq
  rw [h] at heq
  cases heq

namespace Makes

variable {s s' s'' : σ} {ts us : List T}

theorem append (h : Makes step s ts s') (h' : Makes step s' us s'') :
    Makes step s (ts ++ us) s'' := by
  induction h with
  | nil => exact h'
  | cons hstep _ ih => exact .cons hstep (ih h')

/-- One item more. -/
theorem snoc {t : T} (h : Makes step s ts s') (hstep : (step s').2 = .item t s'') :
    Makes step s (ts ++ [t]) s'' :=
  h.append (.cons hstep .nil)

/-- What has been made stands at its place. -/
theorem item_at_of_lt (h : Makes step s ts s') {n : Nat} (hn : n < ts.length) :
    item_at step n s = .ok (some ts[n]) := by
  induction h generalizing n with
  | nil => exact absurd hn (Nat.not_lt_zero n)
  | cons hstep _ ih =>
    cases n with
    | zero => exact item_at_zero hstep
    | succ n =>
      rw [item_at_item hstep]
      exact ih (Nat.lt_of_succ_lt_succ hn)

/-- The places behind what has been made are those of the state it was made to. -/
theorem item_at_add (h : Makes step s ts s') (n : Nat) :
    item_at step (ts.length + n) s = item_at step n s' := by
  induction h with
  | nil => rw [List.length_nil, Nat.zero_add]
  | cons hstep _ ih => rw [List.length_cons, Nat.add_right_comm, item_at_item hstep, ih]

theorem noted_add (h : Makes step s ts s') (n : Nat) :
    noted step (ts.length + n) s = noted step ts.length s ++ noted step n s' := by
  induction h with
  | nil => rw [List.length_nil, Nat.zero_add, noted_zero, List.nil_append]
  | cons hstep _ ih =>
    rw [List.length_cons, Nat.add_right_comm, noted_item hstep, noted_item hstep, ih,
      List.append_assoc]

/-- What stands somewhere when the end has been found. -/
theorem item_at_of_finished (h : Makes step s ts s') (hend : (step s').2 = .finished) (n : Nat) :
    item_at step n s = .ok ts[n]? := by
  by_cases hn : n < ts.length
  · rw [h.item_at_of_lt hn, List.getElem?_eq_getElem hn]
  · obtain ⟨k, rfl⟩ := Nat.exists_eq_add_of_le (Nat.le_of_not_lt hn)
    rw [h.item_at_add, item_at_finished hend, List.getElem?_eq_none (Nat.le_add_right _ _)]

theorem item_at_of_fault {e : E} (h : Makes step s ts s') (hend : (step s').2 = .fault e)
    {n : Nat} (hn : ts.length ≤ n) : item_at step n s = .error e := by
  obtain ⟨k, rfl⟩ := Nat.exists_eq_add_of_le hn
  rw [h.item_at_add, item_at_fault hend]

end Makes

/-- More turns note more. -/
theorem noted_prefix {m n : Nat} (hle : m ≤ n) (s : σ) : noted step m s <+: noted step n s := by
  induction m generalizing n s with
  | zero => exact List.nil_prefix
  | succ m ih =>
    obtain ⟨n, rfl⟩ := Nat.exists_eq_add_of_le' (Nat.lt_of_lt_of_le (Nat.succ_pos m) hle)
    rw [noted_succ, noted_succ]
    apply (List.prefix_append_right_inj _).mpr
    split
    · exact ih (Nat.le_of_succ_le_succ hle) _
    · exact List.prefix_rfl

/-! ## Readers -/

/-- What a reader may ask for. -/
inductive Op
  | peek_nth (n : Nat)
  | advance
  | seek (pos : Nat)
  | preceding
  | discard_consumed
  deriving DecidableEq

inductive Answer (T E : Type*)
  | read (item : Except E (Option T))
  | retained (item : Option T)
  | done
  deriving DecidableEq

/-- A reader that has all items at hand: where it stands, how far it has been, up to where it has
    let go of the items, and how many turns of the producer its questions take. -/
structure Reader where
  pos : Nat
  seen : Nat
  start : Nat
  asked : Nat
  deriving DecidableEq

namespace Reader

def new : Reader := ⟨0, 0, 0, 0⟩

/-- The reader when it has asked for the item at a place. -/
def ask (self : Reader) (place : Nat) : Reader := { self with asked := max self.asked (place + 1) }

/-- The reader behind the item it stands at. -/
def move (self : Reader) : Reader :=
  { self with pos := self.pos + 1, seen := max self.seen (self.pos + 1) }

variable (step : Producer σ T W E) (s : σ)

/-- The last item consumed, if it has not been let go of. -/
def last_consumed (self : Reader) : Option T :=
  if self.start < self.pos then
    match item_at step (self.pos - 1) s with
    | .ok item => item
    | .error _ => none
  else none

def perform (self : Reader) : Op → Answer T E × Reader
  | .peek_nth n => (.read (item_at step (self.pos + n) s), self.ask (self.pos + n))
  | .advance =>
    (.read (item_at step self.pos s),
      match item_at step self.pos s with
      | .ok (some _) => (self.ask self.pos).move
      | _ => self.ask self.pos)
  | .seek pos => (.done, { self with pos := pos })
  | .preceding => (.retained (self.last_consumed step s), self)
  | .discard_consumed => (.done, { self with start := max self.start self.pos })

variable {step s} in
theorem advance_item {self : Reader} {t : T} (h : item_at step self.pos s = .ok (some t)) :
    (self.perform step s .advance).2 = (self.ask self.pos).move := by
  rw [perform, h]

variable {step s} in
theorem advance_stop {self : Reader} (h : ∀ t, item_at step self.pos s ≠ .ok (some t)) :
    (self.perform step s .advance).2 = self.ask self.pos := by
  rw [perform]
  dsimp only
  split
  · rename_i t heq
    exact absurd heq (h t)
  · rfl

/-- A reader seeks only places it has been at and whose items it has kept. -/
def Allows (self : Reader) : Op → Prop
  | .seek pos => self.start ≤ pos ∧ pos ≤ self.seen
  | _ => True

/-- The answers to a run of questions, and the reader behind them. -/
def run : Reader → List Op → List (Answer T E) × Reader
  | self, [] => ([], self)
  | self, op :: ops =>
    let (answer, next) := self.perform step s op
    let (answers, last) := next.run ops
    (answer :: answers, last)

def AllowsAll : Reader → List Op → Prop
  | _, [] => True
  | self, op :: ops => self.Allows op ∧ (self.perform step s op).2.AllowsAll ops

end Reader

end on_demand
