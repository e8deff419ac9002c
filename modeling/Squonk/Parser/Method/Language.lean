import Squonk.Tokenizer.Token

/-!
# Methods of the parser

The grammar's methods as programs over what the engine offers them: the token stream, the mode
flags, the clause marks, the recursion guard and speculation. A grammar gives every production
its program. A run ends with a value or an error, or finds no frame left on the stack.
-/

open squonk.tokenizer

namespace squonk.parser.method

/-! ## State -/

/-- The flags that a method sets for the extent of a call. -/
inductive Mode | RestrictBExpr | SuppressValueStar | InConnectBy | BodyReturnAllowed
  deriving DecidableEq

inductive ClauseKw
  | From | Where | ConnectBy | StartWith | GroupBy | Having | Window | Qualify | LateralView
  | OrderBy | Limit | Offset
  deriving DecidableEq

/-- A clause keyword, at the place of its token. Its owner is pending until a node takes it. -/
structure ClauseMark where
  owner : Option Nat
  kind : ClauseKw
  offset : Nat
  deriving DecidableEq

structure Parser where
  pos : Nat
  next_node_id : Nat
  recursion_depth : Nat
  angle_gt_pending : Nat
  paren_query_grouping : Bool
  modes : Mode → Bool
  capture_clause_marks : Bool
  clause_marks : List ClauseMark

inductive ParseErrorKind
  | Unexpected (expected : String)
  | RecursionLimitExceeded
  deriving DecidableEq

structure ParseError where
  kind : ParseErrorKind
  offset : Nat
  deriving DecidableEq

/-! ## Traces -/

/-- The clause keywords of what was kept, in the nodes that own them. -/
inductive Clause
  | keyword (kind : ClauseKw) (offset : Nat)
  | node (id : Nat) (clauses : List Clause)

/-- What a run did, given up or not. -/
inductive Event
  | recorded (kind : ClauseKw) (offset : Nat)
  /-- A branch was given up and its clause marks stayed. -/
  | stale (marks : Nat)
  /-- The first half of a `>>` closed a type. -/
  | split (offset : Nat)
  /-- The second half of a `>>` closed a type. -/
  | closed (offset : Nat)
  /-- A query left its flags otherwise than it found them. -/
  | leaked (offset : Nat)
  /-- A branch that ended at the recursion limit was given up. -/
  | swallowed (offset : Nat)
  /-- A method went on behind the end of its statement. -/
  | crossed (offset : Nat)
  deriving DecidableEq

/-- Is the event about a clause mark? -/
def Event.is_mark : Event → Bool
  | recorded _ _ | stale _ => true
  | _ => false

def Event.is_recorded : Event → Bool
  | recorded _ _ => true
  | _ => false

def Event.is_stale : Event → Bool
  | stale _ => true
  | _ => false

def Event.is_split : Event → Bool
  | split _ => true
  | _ => false

def Event.is_closed : Event → Bool
  | closed _ => true
  | _ => false

def Event.is_leaked : Event → Bool
  | leaked _ => true
  | _ => false

def Event.is_swallowed : Event → Bool
  | swallowed _ => true
  | _ => false

def Event.is_crossed : Event → Bool
  | crossed _ => true
  | _ => false

structure Trail where
  clauses : List Clause := []
  events : List Event := []

inductive Outcome (α : Type)
  | overflow
  | done (result : Except ParseError α) (parser : Parser) (trail : Trail)

namespace Outcome

variable {α β : Type}

/-- Put what was done before in front. -/
def after (trail : Trail) : Outcome α → Outcome α
  | overflow => overflow
  | done result parser rest =>
    done result parser ⟨trail.clauses ++ rest.clauses, trail.events ++ rest.events⟩

def bind (x : Outcome α) (f : α → Parser → Outcome β) : Outcome β :=
  match x with
  | overflow => overflow
  | done (.error e) parser trail => done (.error e) parser trail
  | done (.ok a) parser trail => (f a parser).after trail

def ended : Outcome α → Option (Except ParseError α × Parser × Trail)
  | overflow => none
  | done result parser trail => some (result, parser, trail)

theorem of_ended {γ : Type} {x : Outcome α} {view : Except ParseError α × Parser × Trail → γ}
    {seen : γ} (hseen : x.ended.map view = some seen) :
    ∃ result parser trail, x = done result parser trail ∧ view (result, parser, trail) = seen := by
  cases x with
  | overflow => cases hseen
  | done result parser trail => exact ⟨result, parser, trail, rfl, Option.some.inj hseen⟩

end Outcome

/-! ## Programs -/

/-- A step on the parser itself. -/
inductive Action
  /-- A decision on the tokens ahead in the statement. -/
  | look {β : Type} (test : List Token → β)
  | advance
  | mode (mode : Mode)
  /-- Eat the head of a clause, if it is there, and record it. -/
  | clause (kind : ClauseKw) (head : Token → Bool)
  | expect_angle_gt (expected : String)
  | unexpected (expected : String)

abbrev Action.Reply : Action → Type
  | @look β _ => β
  | mode _ | clause _ _ => Bool
  | advance | expect_angle_gt _ => Unit
  | unexpected _ => Empty

/-- How a production is called. -/
inductive Entry
  | plain
  /-- Under the recursion guard. -/
  | guarded
  /-- With flags set for the extent of the call. -/
  | set (modes : List (Mode × Bool))
  /-- In a branch that is rewound when it fails, with its clause marks dropped or not. -/
  | attempt (truncating : Bool)
  /-- In a branch that is always rewound. -/
  | probe
  /-- For a node that owns the clauses read in the call. -/
  | owned

abbrev Entry.Reply : Entry → Type → Type
  | plain, α | guarded, α | set _, α => α
  | attempt _, α => Option α
  | probe, _ => Bool
  | owned, α => α × Nat

inductive Method {Proc : Type} (Ret : Proc → Type) (α : Type) : Type 1
  | pure (a : α)
  | act (action : Action) (k : action.Reply → Method Ret α)
  | call (entry : Entry) (p : Proc) (k : entry.Reply (Ret p) → Method Ret α)
  /-- Call a query: guarded, outside of any `CONNECT BY`, and told whether it stands in a
  grouping position. The flag that tells it is armed here and taken as its first step. -/
  | query (grouping : Bool) (p : Bool → Proc) (k : (taken : Bool) → Ret (p taken) → Method Ret α)

namespace Method

variable {Proc : Type} {Ret : Proc → Type} {α β : Type}

def bind : Method Ret α → (α → Method Ret β) → Method Ret β
  | pure a, f => f a
  | act action k, f => act action fun reply => (k reply).bind f
  | call entry p k, f => call entry p fun reply => (k reply).bind f
  | query grouping p k, f => query grouping p fun taken a => (k taken a).bind f

instance : Monad (Method Ret) where
  pure := pure
  bind := bind

def step (action : Action) : Method Ret action.Reply := act action pure

def invoke (entry : Entry) (p : Proc) : Method Ret (entry.Reply (Ret p)) := call entry p pure

end Method

structure Grammar where
  Proc : Type
  Ret : Proc → Type
  body : (p : Proc) → Method Ret (Ret p)

/-! ## Runs -/

section Steps

variable (source : List Token)

/-- The tokens before the next `;`. No decision depends on what stands there or behind it. -/
def Parser.ahead (self : Parser) : List Token :=
  (source.drop self.pos).takeWhile (· ≠ .punctuation .Semicolon)

def Parser.peek (self : Parser) : Option Token := (self.ahead source).head?

def Parser.advance (self : Parser) : Parser :=
  if self.pos < source.length then { self with pos := self.pos + 1 } else self

def Parser.unexpected {α : Type} (self : Parser) (expected : String) : Outcome α :=
  .done (.error ⟨.Unexpected expected, self.pos⟩) self {}

def Parser.step (self : Parser) : Outcome Unit :=
  .done (.ok ()) (self.advance source)
    { events := if (self.peek source).isSome then [] else [.crossed self.pos] }

/-- Take one close of a type: a pending half, a `>`, or the first half of a `>>`. -/
def Parser.expect_angle_gt (self : Parser) (expected : String) : Outcome Unit :=
  if 0 < self.angle_gt_pending then
    .done (.ok ()) { self with angle_gt_pending := self.angle_gt_pending - 1 }
      { events := [.closed self.pos] }
  else if self.peek source = some (.operator .Gt) then .done (.ok ()) (self.advance source) {}
  else if self.peek source = some (.operator .ShiftRight) then
    .done (.ok ()) { self.advance source with angle_gt_pending := 1 }
      { events := [.split self.pos] }
  else self.unexpected expected

def Parser.record_clause_mark (self : Parser) (kind : ClauseKw) : Parser :=
  if self.capture_clause_marks then
    { self with clause_marks := self.clause_marks ++ [⟨none, kind, self.pos⟩] }
  else self

def Parser.clause (self : Parser) (kind : ClauseKw) (head : Token → Bool) : Outcome Bool :=
  if (self.peek source).any head then
    .done (.ok true) ((self.record_clause_mark kind).advance source)
      { clauses := [.keyword kind self.pos]
        events := if self.capture_clause_marks then [.recorded kind self.pos] else [] }
  else .done (.ok false) self {}

def perform (action : Action) (s : Parser) : Outcome action.Reply :=
  match action with
  | .look test => .done (.ok (test (s.ahead source))) s {}
  | .advance => s.step source
  | .mode mode => .done (.ok (s.modes mode)) s {}
  | .clause kind head => s.clause source kind head
  | .expect_angle_gt expected => s.expect_angle_gt source expected
  | .unexpected expected => s.unexpected expected

end Steps

section Calls

variable (limit : Nat) {α : Type}

def Parser.recursion_limit_exceeded (self : Parser) (events : List Event) : Outcome α :=
  .done (.error ⟨.RecursionLimitExceeded, self.pos⟩) self { events }

/-- One level of recursive descent, restored on every way out. -/
def enter_recursion (callee : Parser → Outcome α) (s : Parser) : Outcome α :=
  if s.recursion_depth ≥ limit then s.recursion_limit_exceeded []
  else
    match callee { s with recursion_depth := s.recursion_depth + 1 } with
    | .overflow => .overflow
    | .done result s' trail =>
      .done result { s' with recursion_depth := s'.recursion_depth - 1 } trail

def Parser.set_mode (self : Parser) (mode : Mode) (value : Bool) : Parser :=
  { self with modes := fun m => if m = mode then value else self.modes m }

def with_mode (mode : Mode) (value : Bool) (callee : Parser → Outcome α) (s : Parser) :
    Outcome α :=
  match callee (s.set_mode mode value) with
  | .overflow => .overflow
  | .done result s' trail => .done result (s'.set_mode mode (s.modes mode)) trail

def with_modes (modes : List (Mode × Bool)) (callee : Parser → Outcome α) :
    Parser → Outcome α :=
  modes.foldr (fun (mode, value) => with_mode mode value) callee

/-- Clear the flags of the query around and arm the one that tells a grouping position. -/
def Parser.arm_query (self : Parser) (grouping : Bool) : Parser :=
  { self.set_mode .InConnectBy false with
    paren_query_grouping := self.paren_query_grouping || grouping }

/-- The armed flag is taken as the query's first step. The other is restored behind the query,
but not where the guard refuses it. -/
def enter_query (grouping : Bool) (callee : Bool → Parser → Outcome α) (s : Parser) :
    Outcome α :=
  let armed := s.arm_query grouping
  if s.recursion_depth ≥ limit then
    armed.recursion_limit_exceeded
      (if s.modes .InConnectBy || armed.paren_query_grouping != s.paren_query_grouping then
        [.leaked s.pos] else [])
  else
    match callee armed.paren_query_grouping
      { armed with paren_query_grouping := false, recursion_depth := s.recursion_depth + 1 } with
    | .overflow => .overflow
    | .done result s' trail =>
      .done result { s'.set_mode .InConnectBy (s.modes .InConnectBy) with
          recursion_depth := s'.recursion_depth - 1 }
        { trail with
          events := (if s.paren_query_grouping then [.leaked s.pos] else []) ++ trail.events }

/-- Return to the place of `s`. -/
def Parser.rewind (self s : Parser) (truncating : Bool) : Parser :=
  { self with
    pos := s.pos
    clause_marks := bif truncating then self.clause_marks.take s.clause_marks.length
      else self.clause_marks }

def error? : Except ParseError α → Option ParseError
  | .error e => some e
  | .ok _ => none

def is_limit (result : Except ParseError α) : Bool :=
  (error? result).any (·.kind == .RecursionLimitExceeded)

/-- What there is to say of a branch that began in `s`, ended in `s'` and was given up. -/
def abandon (s s' : Parser) (truncating limited : Bool) (events : List Event) : Trail where
  events :=
    (bif truncating then events.filter (!·.is_mark) else events) ++
    (bif limited then [.swallowed s.pos] else []) ++
    (if truncating || s'.clause_marks.length ≤ s.clause_marks.length then []
      else [.stale (s'.clause_marks.length - s.clause_marks.length)])

def attempt (truncating : Bool) (callee : Parser → Outcome α) (s : Parser) :
    Outcome (Option α) :=
  match callee s with
  | .overflow => .overflow
  | .done (.ok a) s' trail => .done (.ok (some a)) s' trail
  | .done (.error e) s' trail =>
    .done (.ok none) (s'.rewind s truncating)
      (abandon s s' truncating (is_limit (.error e : Except ParseError α)) trail.events)

def probe (callee : Parser → Outcome α) (s : Parser) : Outcome Bool :=
  match callee s with
  | .overflow => .overflow
  | .done result s' trail =>
    .done (.ok result.isOk) (s'.rewind s true)
      (abandon s s' true (is_limit result) trail.events)

def ClauseMark.patch (self : ClauseMark) (owner : Nat) : ClauseMark :=
  if self.owner = none then { self with owner := some owner } else self

/-- Give the clause marks from `start` on that are pending to the node `owner`. -/
def patch_clause_marks (marks : List ClauseMark) (start owner : Nat) : List ClauseMark :=
  marks.take start ++ (marks.drop start).map (·.patch owner)

def own (callee : Parser → Outcome α) (s : Parser) : Outcome (α × Nat) :=
  match callee s with
  | .overflow => .overflow
  | .done (.error e) s' trail => .done (.error e) s' trail
  | .done (.ok a) s' trail =>
    .done (.ok (a, s'.next_node_id))
      { s' with
        next_node_id := s'.next_node_id + 1
        clause_marks :=
          patch_clause_marks s'.clause_marks s.clause_marks.length s'.next_node_id }
      { trail with clauses := [.node s'.next_node_id trail.clauses] }

def enter (entry : Entry) (callee : Parser → Outcome α) : Parser → Outcome (entry.Reply α) :=
  match entry with
  | .plain => callee
  | .guarded => enter_recursion limit callee
  | .set modes => with_modes modes callee
  | .attempt truncating => attempt truncating callee
  | .probe => probe callee
  | .owned => own callee

end Calls

variable {Proc : Type} {Ret : Proc → Type} {α : Type}

/-- Run a program, where `callee` runs the productions it calls. -/
def Method.run (source : List Token) (limit : Nat)
    (callee : (p : Proc) → Parser → Outcome (Ret p)) : Method Ret α → Parser → Outcome α
  | .pure a, s => .done (.ok a) s {}
  | .act action k, s => (perform source action s).bind fun reply => (k reply).run source limit callee
  | .call entry p k, s =>
    (enter limit entry (callee p) s).bind fun reply => (k reply).run source limit callee
  | .query grouping p k, s =>
    (enter_query limit grouping (fun taken s =>
      (callee (p taken) s).bind fun a s => .done (.ok (⟨taken, a⟩ : Σ t, Ret (p t))) s {}) s).bind
      fun reply => (k reply.1 reply.2).run source limit callee

/-- Run a production on a stack with room for `frames` calls inside each other. -/
def Grammar.exec (G : Grammar) (source : List Token) (limit : Nat) :
    Nat → (p : G.Proc) → Parser → Outcome (G.Ret p)
  | 0, _, _ => .overflow
  | frames + 1, p, s => (G.body p).run source limit (G.exec source limit frames) s

/-- The parser of a source. -/
def Parser.new (capture_clause_marks : Bool) : Parser where
  pos := 0
  next_node_id := 1
  recursion_depth := 0
  angle_gt_pending := 0
  paren_query_grouping := false
  modes mode := mode = .BodyReturnAllowed
  capture_clause_marks
  clause_marks := []

end squonk.parser.method
