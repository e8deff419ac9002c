import Mathlib.Algebra.Order.Ring.Nat
import Mathlib.Data.List.DropRight

/-!
# Documents and their layouter

The intentions a renderer composes, and the loop that resolves them against a line width. The loop
works off a stack of commands, the top first.
-/

namespace squonk.format

/-- A layout intention. -/
inductive Doc
  | Nil
  | Text (s : List Char)
  | Line
  | SoftLine
  | HardLine
  | Concat (parts : List Doc)
  | Nest (width : Nat) (inner : Doc)
  | Group (inner : Doc)

inductive Mode
  | Flat
  | Break
  deriving DecidableEq

/-- A pending document with its indent and the mode of the enclosing group. -/
structure Cmd where
  indent : Nat
  mode : Mode
  doc : Doc

def text_width (s : List Char) : Nat := s.length

/-- A word of 64 bits taken for a signed one. -/
def as_isize (n : Nat) : Int := Int.bmod n (2 ^ 64)

/-! ## The number of commands -/

mutual

/-- How many commands a document is worked off with. -/
def Doc.weight : Doc → Nat
  | .Nil | .Text _ | .Line | .SoftLine | .HardLine => 1
  | .Concat parts => weights parts + 1
  | .Nest _ inner => inner.weight + 1
  | .Group inner => inner.weight + 1

def weights : List Doc → Nat
  | [] => 0
  | doc :: docs => doc.weight + weights docs

end

def stack_weight (stack : List Cmd) : Nat := weights (stack.map Cmd.doc)

/-! ## Measuring -/

/-- Measure one command: the verdict, or what remains and the commands it is replaced by. -/
def fits_step (remaining : Int) (cmd : Cmd) : Bool ⊕ Int × List Cmd :=
  match cmd.doc with
  | .Nil => .inr (remaining, [])
  | .Text s => .inr (remaining - text_width s, [])
  | .Concat parts => .inr (remaining, parts.map fun part => ⟨cmd.indent, cmd.mode, part⟩)
  | .Nest width inner => .inr (remaining, [⟨cmd.indent + width, cmd.mode, inner⟩])
  | .Group inner => .inr (remaining, [⟨cmd.indent, .Flat, inner⟩])
  | .Line =>
    match cmd.mode with
    | .Flat => .inr (remaining - 1, [])
    | .Break => .inl true
  | .SoftLine =>
    match cmd.mode with
    | .Flat => .inr (remaining, [])
    | .Break => .inl true
  | .HardLine =>
    match cmd.mode with
    | .Flat => .inl false
    | .Break => .inl true

/-- The next command: of the group, or else of the outer stack. -/
def pop (pending rest : List Cmd) : Option (Cmd × List Cmd × List Cmd) :=
  match pending, rest with
  | cmd :: pending, rest => some (cmd, pending, rest)
  | [], cmd :: rest => some (cmd, [], rest)
  | [], [] => none

/-- The loop of `fits`. A turn takes one command, so that `fuel` never ends it. -/
def fits_loop : Nat → Int → List Cmd → List Cmd → Bool
  | 0, _, _, _ => false
  | fuel + 1, remaining, pending, rest =>
    if remaining < 0 then false
    else
      match pop pending rest with
      | none => true
      | some (cmd, pending, rest) =>
        match fits_step remaining cmd with
        | .inl verdict => verdict
        | .inr (remaining, cmds) => fits_loop fuel remaining (cmds ++ pending) rest

/-- Whether the content of a group, with the commands behind it, fits flat. -/
def fits (remaining : Int) (group_indent : Nat) (group_doc : Doc) (rest : List Cmd) : Bool :=
  fits_loop (group_doc.weight + stack_weight rest + 1) remaining
    [⟨group_indent, .Flat, group_doc⟩] rest

/-! ## The layouter -/

/-- A newline and the indent, without the spaces in front of it. -/
def new_line (out : List Char) (indent : Nat) : List Char :=
  out.rdropWhile (· == ' ') ++ '\n' :: List.replicate indent ' '

structure Layouter where
  out : List Char
  pos : Nat
  stack : List Cmd

/-- One turn of the loop: the top command is worked off. -/
def step (width : Nat) (self : Layouter) : Layouter :=
  match self.stack with
  | [] => self
  | ⟨indent, mode, doc⟩ :: stack =>
    match doc with
    | .Nil => ⟨self.out, self.pos, stack⟩
    | .Text s => ⟨self.out ++ s, self.pos + text_width s, stack⟩
    | .Concat parts => ⟨self.out, self.pos, (parts.map fun part => ⟨indent, mode, part⟩) ++ stack⟩
    | .Nest w inner => ⟨self.out, self.pos, ⟨indent + w, mode, inner⟩ :: stack⟩
    | .Group inner =>
      let flat := mode == .Flat || fits (as_isize width - self.pos) indent inner stack
      let inner_mode := if flat then .Flat else .Break
      ⟨self.out, self.pos, ⟨indent, inner_mode, inner⟩ :: stack⟩
    | .Line =>
      match mode with
      | .Flat => ⟨self.out ++ [' '], self.pos + 1, stack⟩
      | .Break => ⟨new_line self.out indent, indent, stack⟩
    | .SoftLine =>
      match mode with
      | .Flat => ⟨self.out, self.pos, stack⟩
      | .Break => ⟨new_line self.out indent, indent, stack⟩
    | .HardLine => ⟨new_line self.out indent, indent, stack⟩

/-- Some turns of the loop, which changes nothing more once the stack is empty. -/
def run (width : Nat) : Nat → Layouter → Layouter
  | 0, self => self
  | n + 1, self => run width n (step width self)

def start (doc : Doc) : Layouter := ⟨[], 0, [⟨0, .Break, doc⟩]⟩

/-- The text of a document, broken to the width. -/
def layout (doc : Doc) (width : Nat) : List Char := (run width doc.weight (start doc)).out

end squonk.format
