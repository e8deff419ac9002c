import Squonk.Parser.NodeId.Tree
import Squonk.Tokenizer.Token

/-!
# Methods that build nodes

The grammar's methods as programs over the engine. What a method has built stands in its local
variables; a struct expression moves its `Meta` and its fields out of them, and a call moves its
arguments. A branch that is given up drops its locals and returns to its first token. The counter
of the ids is never set back.
-/

open squonk.tokenizer

namespace squonk.parser.node_ids

inductive ParseErrorKind
  | Unexpected (expected : String)
  | RecursionLimitExceeded
  deriving DecidableEq

structure ParseError where
  kind : ParseErrorKind
  offset : Nat
  deriving DecidableEq

structure Parser (Flags : Type) where
  pos : Nat
  next_node_id : Nat
  recursion_depth : Nat
  /-- What else the engine keeps from one method to the next. -/
  flags : Flags

inductive Local
  | node_meta (node_meta : Meta)
  | tree (node : Node)
  | moved

/-- The place of a local variable. -/
abbrev Var := Nat

structure Frame (Flags : Type) where
  state : Parser Flags
  locals : List Local

inductive Outcome (State α : Type)
  /-- The run panics, or finds no frame left on the stack. -/
  | halted
  | done (result : Except ParseError α) (state : State)

def Outcome.bind {State α β : Type} (x : Outcome State α) (f : α → State → Outcome State β) :
    Outcome State β :=
  match x with
  | halted => halted
  | done (.error e) state => done (.error e) state
  | done (.ok a) state => f a state

/-! ## Moves -/

def take_one (locals : List Local) (var : Var) : Option (Local × List Local) :=
  match locals[var]? with
  | none | some .moved => none
  | some value => some (value, locals.set var .moved)

/-- Move variables out, one after the other. None is moved twice. -/
def take : List Var → List Local → Option (List Local × List Local)
  | [], locals => some ([], locals)
  | var :: vars, locals => do
    let (value, locals) ← take_one locals var
    let (values, locals) ← take vars locals
    some (value :: values, locals)

def trees : List Local → Option (List Node)
  | [] => some []
  | .tree node :: values => (node :: ·) <$> trees values
  | _ :: _ => none

def take_meta (locals : List Local) (var : Var) : Option (Meta × List Local) :=
  match take_one locals var with
  | some (.node_meta node_meta, locals) => some (node_meta, locals)
  | _ => none

def take_trees (vars : List Var) (locals : List Local) : Option (List Node × List Local) := do
  let (values, locals) ← take vars locals
  let nodes ← trees values
  some (nodes, locals)

/-! ## Programs -/

inductive Action (Flags : Type)
  /-- A decision on the tokens, the state and what was built. -/
  | look {β : Type} (test : List Token → Parser Flags → List Local → β)
  | advance
  | rewind (pos : Nat)
  | set (update : Flags → Flags)
  | make_meta
  /-- A struct expression. -/
  | build (kind : Kind) (node_meta : Var) (fields : List Var)
  /-- A struct expression that puts its `Meta` into the body too. -/
  | build_twin (twin : Twin) (node_meta : Var) (body rest : List Var)
  /-- Take a node apart. None of the twins is ever taken apart. -/
  | destructure (tree : Var)
  | unexpected (expected : String)

abbrev Action.Reply {Flags : Type} : Action Flags → Type
  | @look _ β _ => β
  | advance | rewind _ | set _ => Unit
  | make_meta | build _ _ _ | build_twin _ _ _ _ => Var
  | destructure _ => Var × List Var
  | unexpected _ => Empty

inductive Entry (Flags : Type)
  | plain
  /-- Under the recursion guard. -/
  | guarded
  /-- With flags set for the extent of the call. -/
  | with_flags (enter : Flags → Flags) (leave : (before after : Flags) → Flags)
  /-- In a branch that is rewound when it fails. -/
  | attempt
  /-- In a branch that is always rewound. -/
  | probe

abbrev Entry.Reply {Flags : Type} : Entry Flags → Type → Type
  | plain, α | guarded, α | with_flags _ _, α => α
  | attempt, α => Option α
  | probe, _ => Bool

inductive Method (Flags : Type) {Proc : Type} (Ret : Proc → Type) (α : Type) : Type 1
  | pure (a : α)
  | act (action : Action Flags) (k : action.Reply → Method Flags Ret α)
  | call (entry : Entry Flags) (p : Proc) (args : List Var)
      (k : entry.Reply (Ret p × List Var) → Method Flags Ret α)

namespace Method

variable {Flags Proc : Type} {Ret : Proc → Type} {α β : Type}

def bind : Method Flags Ret α → (α → Method Flags Ret β) → Method Flags Ret β
  | pure a, f => f a
  | act action k, f => act action fun reply => (k reply).bind f
  | call entry p args k, f => call entry p args fun reply => (k reply).bind f

instance : Monad (Method Flags Ret) where
  pure := pure
  bind := bind

def step (action : Action Flags) : Method Flags Ret action.Reply := act action pure

def invoke (entry : Entry Flags) (p : Proc) (args : List Var) :
    Method Flags Ret (entry.Reply (Ret p × List Var)) := call entry p args pure

end Method

structure Grammar where
  Flags : Type
  Proc : Type
  Ret : Proc → Type
  /-- A method returns a value and the locals it moves out. -/
  body : (p : Proc) → Method Flags Ret (Ret p × List Var)
  /-- The method of a statement. -/
  statement : Proc
  init : Flags

/-! ## Runs -/

section Steps

variable {Flags α : Type} (source : List Token)

/-- Allocate the next id. It panics where the counter does not fit. -/
def Frame.make_meta (frame : Frame Flags) : Outcome (Frame Flags) Var :=
  match NodeId.new frame.state.next_node_id with
  | none => .halted
  | some node_id =>
    .done (.ok frame.locals.length)
      { state := { frame.state with next_node_id := frame.state.next_node_id + 1 }
        locals := frame.locals ++ [.node_meta ⟨node_id⟩] }

/-- Go on with a new local in place of those that were moved. -/
def Frame.store (frame : Frame Flags) (locals : List Local) (node : Node) :
    Outcome (Frame Flags) Var :=
  .done (.ok locals.length) { frame with locals := locals ++ [.tree node] }

def Frame.build (frame : Frame Flags) (kind : Kind) (node_meta : Var) (fields : List Var) :
    Outcome (Frame Flags) Var :=
  match take_meta frame.locals node_meta with
  | none => .halted
  | some (node_meta, locals) =>
    match take_trees fields locals with
    | none => .halted
    | some (fields, locals) => frame.store locals (.single kind node_meta fields)

def Frame.build_twin (frame : Frame Flags) (twin : Twin) (node_meta : Var)
    (body rest : List Var) : Outcome (Frame Flags) Var :=
  match take_meta frame.locals node_meta with
  | none => .halted
  | some (node_meta, locals) =>
    match take_trees body locals with
    | none => .halted
    | some (body, locals) =>
      match take_trees rest locals with
      | none => .halted
      | some (rest, locals) => frame.store locals (.twin twin node_meta body rest)

def Frame.destructure (frame : Frame Flags) (tree : Var) :
    Outcome (Frame Flags) (Var × List Var) :=
  match take_one frame.locals tree with
  | some (.tree (.single _ node_meta fields), locals) =>
    .done (.ok (locals.length, List.range' (locals.length + 1) fields.length))
      { frame with locals := locals ++ .node_meta node_meta :: fields.map .tree }
  | _ => .halted

def Frame.unexpected (frame : Frame Flags) (expected : String) : Outcome (Frame Flags) α :=
  .done (.error ⟨.Unexpected expected, frame.state.pos⟩) frame

def Parser.advance (self : Parser Flags) : Parser Flags :=
  if self.pos < source.length then { self with pos := self.pos + 1 } else self

def perform (action : Action Flags) (frame : Frame Flags) :
    Outcome (Frame Flags) action.Reply :=
  match action with
  | .look test => .done (.ok (test source frame.state frame.locals)) frame
  | .advance => .done (.ok ()) { frame with state := frame.state.advance source }
  | .rewind pos => .done (.ok ()) { frame with state := { frame.state with pos } }
  | .set update =>
    .done (.ok ())
      { frame with state := { frame.state with flags := update frame.state.flags } }
  | .make_meta => frame.make_meta
  | .build kind node_meta fields => frame.build kind node_meta fields
  | .build_twin twin node_meta body rest => frame.build_twin twin node_meta body rest
  | .destructure tree => frame.destructure tree
  | .unexpected expected => frame.unexpected expected

end Steps

section Calls

variable {Flags α : Type} (limit : Nat)

/-- Move the arguments into a callee and its results into new locals. -/
def call_with (args : List Var)
    (callee : Parser Flags → List Local → Outcome (Parser Flags) (α × List Local))
    (frame : Frame Flags) : Outcome (Frame Flags) (α × List Var) :=
  match take args frame.locals with
  | none => .halted
  | some (args, locals) =>
    match callee frame.state args with
    | .halted => .halted
    | .done (.error e) s => .done (.error e) ⟨s, locals⟩
    | .done (.ok (a, results)) s =>
      .done (.ok (a, List.range' locals.length results.length)) ⟨s, locals ++ results⟩

/-- One level of recursive descent, restored on every way out. -/
def enter_recursion (callee : Frame Flags → Outcome (Frame Flags) α) (frame : Frame Flags) :
    Outcome (Frame Flags) α :=
  let s := frame.state
  if s.recursion_depth ≥ limit then
    .done (.error ⟨.RecursionLimitExceeded, s.pos⟩) frame
  else
    match callee { frame with
      state := { s with recursion_depth := s.recursion_depth + 1 } } with
    | .halted => .halted
    | .done result frame =>
      .done result { frame with
        state := { frame.state with
          recursion_depth := frame.state.recursion_depth - 1 } }

def with_flags (enter : Flags → Flags) (leave : (before after : Flags) → Flags)
    (callee : Frame Flags → Outcome (Frame Flags) α) (frame : Frame Flags) :
    Outcome (Frame Flags) α :=
  let before := frame.state.flags
  match callee { frame with state := { frame.state with flags := enter before } } with
  | .halted => .halted
  | .done result frame =>
    .done result
      { frame with state := { frame.state with flags := leave before frame.state.flags } }

def attempt (callee : Frame Flags → Outcome (Frame Flags) α) (frame : Frame Flags) :
    Outcome (Frame Flags) (Option α) :=
  match callee frame with
  | .halted => .halted
  | .done (.ok a) frame => .done (.ok (some a)) frame
  | .done (.error _) frame' =>
    .done (.ok none)
      { frame' with state := { frame'.state with pos := frame.state.pos } }

def probe (callee : Frame Flags → Outcome (Frame Flags) α) (frame : Frame Flags) :
    Outcome (Frame Flags) Bool :=
  match callee frame with
  | .halted => .halted
  | .done result frame' =>
    .done (.ok result.isOk)
      { frame' with state := { frame'.state with pos := frame.state.pos } }

def enter (entry : Entry Flags) (callee : Frame Flags → Outcome (Frame Flags) α) :
    Frame Flags → Outcome (Frame Flags) (entry.Reply α) :=
  match entry with
  | .plain => callee
  | .guarded => enter_recursion limit callee
  | .with_flags enter leave => with_flags enter leave callee
  | .attempt => attempt callee
  | .probe => probe callee

/-- Return the results out of the locals. -/
def finish : Outcome (Frame Flags) (α × List Var) → Outcome (Parser Flags) (α × List Local)
  | .halted => .halted
  | .done (.error e) frame => .done (.error e) frame.state
  | .done (.ok (a, results)) frame =>
    match take results frame.locals with
    | none => .halted
    | some (results, _) => .done (.ok (a, results)) frame.state

end Calls

/-- Run a program, where `callee` runs the methods it calls. -/
def Method.run {Flags Proc : Type} {Ret : Proc → Type} {α : Type} (source : List Token)
    (limit : Nat)
    (callee : (p : Proc) → Parser Flags → List Local → Outcome (Parser Flags) (Ret p × List Local)) :
    Method Flags Ret α → Frame Flags → Outcome (Frame Flags) α
  | .pure a, frame => .done (.ok a) frame
  | .act action k, frame =>
    (perform source action frame).bind fun reply => (k reply).run source limit callee
  | .call entry p args k, frame =>
    (enter limit entry (call_with args (callee p)) frame).bind fun reply =>
      (k reply).run source limit callee

namespace Grammar

variable (G : Grammar) (source : List Token) (limit : Nat)

/-- Run a method on a stack with room for `frames` calls inside each other. -/
def exec : Nat → (p : G.Proc) → Parser G.Flags → List Local →
    Outcome (Parser G.Flags) (G.Ret p × List Local)
  | 0, _, _, _ => .halted
  | frames + 1, p, s, args =>
    finish ((G.body p).run source limit (exec frames) ⟨s, args⟩)

/-! ## Scripts -/

variable (frames : Nat)

/-- The parser of a source. -/
def start : Parser G.Flags where
  pos := 0
  next_node_id := 1
  recursion_depth := 0
  flags := G.init

/-- The tokens before the next `;`. -/
def ahead (s : Parser G.Flags) : List Token :=
  (source.drop s.pos).takeWhile (· ≠ .punctuation .Semicolon)

/-- Consume any run of `;`. -/
def skip_statement_separators (s : Parser G.Flags) : Parser G.Flags :=
  { s with
    pos := s.pos + ((source.drop s.pos).takeWhile (· = .punctuation .Semicolon)).length }

/-- One statement, which a `;` or the end of the input has to follow, or none at the end. -/
def parse_next_statement (s : Parser G.Flags) :
    Outcome (Parser G.Flags) (Option (List Node)) :=
  let s := G.skip_statement_separators source s
  if source.length ≤ s.pos then .done (.ok none) s
  else
    (G.exec source limit frames G.statement s []).bind fun (_, results) s =>
      if G.ahead source s ≠ [] then
        .done (.error ⟨.Unexpected "`;` or end of input after a statement", s.pos⟩) s
      else
        match trees results with
        | none => .halted
        | some nodes => .done (.ok (some nodes)) s

/-- The statements that the iterator yields, and the error it ends in. -/
def statements : Nat → Parser G.Flags → Option (List Node × Option ParseError)
  | 0, _ => none
  | turns + 1, s =>
    match G.parse_next_statement source limit frames s with
    | .halted => none
    | .done (.ok none) _ => some ([], none)
    | .done (.ok (some nodes)) s =>
      (statements turns s).map fun (rest, error) => (nodes ++ rest, error)
    | .done (.error e) _ => some ([], some e)

/-- Discard the rest of a broken statement and the `;` behind it, if there is one. -/
def recover_to_statement_boundary (s : Parser G.Flags) : Bool × Parser G.Flags :=
  let boundary := s.pos + (G.ahead source s).length
  if boundary < source.length then (true, { s with pos := boundary + 1 })
  else (false, { s with pos := boundary })

/-- The statements that are read and the errors of those that are not. -/
def collect_recovered : Nat → Parser G.Flags → Option (List Node × List ParseError)
  | 0, _ => none
  | turns + 1, s =>
    match G.parse_next_statement source limit frames s with
    | .halted => none
    | .done (.ok none) _ => some ([], [])
    | .done (.ok (some nodes)) s =>
      (collect_recovered turns s).map fun (rest, errors) => (nodes ++ rest, errors)
    | .done (.error e) s =>
      match G.recover_to_statement_boundary source s with
      | (true, s) => (collect_recovered turns s).map fun (rest, errors) => (rest, e :: errors)
      | (false, _) => some ([], [e])

end Grammar

/-- How a script is read. -/
inductive EntryPoint | parse_with | statements | parse_recovering
  deriving DecidableEq

/-- The trees that an entry point returns. The one that collects returns none behind an error. -/
def Grammar.trees (G : Grammar) (entry_point : EntryPoint) (source : List Token)
    (limit frames : Nat) : Option (List Node) :=
  let turns := source.length + 1
  match entry_point with
  | .statements => (G.statements source limit frames turns G.start).map Prod.fst
  | .parse_with =>
    match G.statements source limit frames turns G.start with
    | some (nodes, none) => some nodes
    | _ => none
  | .parse_recovering => (G.collect_recovered source limit frames turns G.start).map Prod.fst

end squonk.parser.node_ids
