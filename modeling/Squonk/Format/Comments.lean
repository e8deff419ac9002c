import Squonk.Document.Node
import Squonk.Nesting.Stack
import Squonk.Parser.SideIndex
import Squonk.Search.Best

/-!
# The attachment of comments

The comments of a source are captured beside its tree. Each one is attached to a node of the tree,
in front of it, behind it or inside of it, under the id that the renderer finds by the span of a
node.
-/

open squonk.document squonk.parser squonk.tokenizer nesting search
open squonk.tokenizer.scan (TriviaIndex TriviaKind TriviaRange)

namespace squonk.format.comments

/-! ## Tables -/

inductive Position | Leading | Trailing | Dangling
  deriving DecidableEq

/-- The comments attached to one node, in the order of the source. -/
structure NodeComments where
  leading : List TriviaRange
  trailing : List TriviaRange
  dangling : List TriviaRange

def NodeComments.default : NodeComments := ⟨[], [], []⟩

def NodeComments.of (self : NodeComments) : Position → List TriviaRange
  | .Leading => self.leading
  | .Trailing => self.trailing
  | .Dangling => self.dangling

def NodeComments.push (self : NodeComments) (comment : TriviaRange) : Position → NodeComments
  | .Leading => { self with leading := self.leading ++ [comment] }
  | .Trailing => { self with trailing := self.trailing ++ [comment] }
  | .Dangling => { self with dangling := self.dangling ++ [comment] }

structure CommentAttachments where
  by_anchor : Nat → NodeComments
  span_to_id : Span → Option Nat
  comments : List TriviaRange
  attached : Nat

namespace CommentAttachments

def default : CommentAttachments := ⟨fun _ => .default, fun _ => none, [], 0⟩

/-- The comments at a position of the node with exactly this span. -/
def position_for (self : CommentAttachments) (position : Position) (span : Span) :
    List TriviaRange :=
  match self.span_to_id span with
  | none => []
  | some id => (self.by_anchor id).of position

def leading_for (self : CommentAttachments) : Span → List TriviaRange := self.position_for .Leading

def trailing_for (self : CommentAttachments) : Span → List TriviaRange :=
  self.position_for .Trailing

def dangling_for (self : CommentAttachments) : Span → List TriviaRange :=
  self.position_for .Dangling

def push (self : CommentAttachments) (id : Nat) (position : Position) (comment : TriviaRange) :
    CommentAttachments :=
  { self with
    by_anchor := Function.update self.by_anchor id ((self.by_anchor id).push comment position) }

end CommentAttachments

/-! ## The nodes of a parse -/

/-- What a parse keeps of a source: its text, its side tables and its statements. -/
structure Parsed where
  source : List SourceByte
  trivia : TriviaIndex
  clause_marks : ClauseMarkIndex
  statements : List Node
  /-- The ids of the function calls without an argument. -/
  empty_calls : List Nat

def is_comment (range : TriviaRange) : Bool :=
  range.kind == .LineComment || range.kind == .BlockComment

/-- The node records, each in front of those below it. -/
def metas (statements : List Node) : List Meta :=
  (Node.nodesAll statements).filterMap fun
    | .spanned _ info _ _ _ => some info
    | .bare .. => none

/-- A node that some text stands for. -/
structure NodeInfo where
  id : Nat
  span : Span
  deriving DecidableEq

def inventory (statements : List Node) : List NodeInfo :=
  ((metas statements).filter fun info => !info.span.is_synthetic).map fun info =>
    ⟨info.node_id, info.span⟩

def len (span : Span) : Nat := if span.is_synthetic then 0 else span.stop - span.start

/-- Whether the one span contains the other; an equal one does. -/
def contains (outer inner : Span) : Bool :=
  !outer.is_synthetic && !inner.is_synthetic && outer.start ≤ inner.start &&
    inner.stop ≤ outer.stop

/-- Whether there is a newline between two places of a source. -/
def newline_between (source : List SourceByte) (a b : Nat) : Bool :=
  if a ≥ b then false
  else
    is_char_boundary source a && is_char_boundary source b &&
      ((source.take b).drop a).any fun c => c.char == some '\n'

/-! ## Attaching -/

/-- The nodes of a parse with the tree they form, and the index of their spans. -/
structure Pass where
  nodes : List NodeInfo
  children : Nat → List Nat
  roots : List Nat
  span_to_id : Span → Option Nat

def node_at (nodes : List NodeInfo) (i : Nat) : NodeInfo := nodes.getD i ⟨0, .SYNTHETIC⟩

def holds (nodes : List NodeInfo) (outer inner : Nat) : Bool :=
  contains (node_at nodes outer).span (node_at nodes inner).span

/-- The tree by containment of the spans, read off the order of the nodes. -/
def containment_tree (nodes : List NodeInfo) : Links Nat :=
  Links.empty.pushes (holds nodes) (List.range nodes.length)

/-- The id for each span; among nodes with one span that of the last. -/
def span_index (nodes : List NodeInfo) : Span → Option Nat :=
  nodes.foldl (fun index node => Function.update index node.span (some node.id)) fun _ => none

def Pass.of (nodes : List NodeInfo) : Pass :=
  let tree := containment_tree nodes
  ⟨nodes, tree.children, tree.roots, span_index nodes⟩

namespace Pass

def span (self : Pass) (i : Nat) : Span := (node_at self.nodes i).span

/-- The id that the span of a node is found under. -/
def anchor (self : Pass) (i : Nat) : Nat :=
  (self.span_to_id (self.span i)).getD (node_at self.nodes i).id

/-- The node that contains the comment: the one of the least span, and of these the last. -/
def enclosing (self : Pass) (cspan : Span) : Option Nat :=
  pick (fun i => contains (self.span i) cspan) (fun i best =>
    len (self.span i) < len (self.span best) ||
      (len (self.span i) == len (self.span best) && i > best)) (List.range self.nodes.length)

/-- The nearest node that ends in front of the comment. -/
def preceding (self : Pass) (items : List Nat) (cspan : Span) : Option Nat :=
  pick (fun k => (self.span k).stop ≤ cspan.start)
    (fun k best => (self.span k).stop > (self.span best).stop) items

/-- The nearest node that starts behind the comment. -/
def following (self : Pass) (items : List Nat) (cspan : Span) : Option Nat :=
  pick (fun k => (self.span k).start ≥ cspan.stop)
    (fun k best => (self.span k).start < (self.span best).start) items

/-- A comment outside of every node: before, between or behind the statements. -/
def attach_top_level (self : Pass) (cspan : Span) : Option (Position × Nat) :=
  match self.following self.roots cspan, self.preceding self.roots cspan with
  | some f, _ => some (.Leading, f)
  | none, some p => some (.Trailing, p)
  | none, none => none

/-- The position and the node that a comment is attached to. -/
def classify (self : Pass) (parsed : Parsed) (cspan : Span) : Option (Position × Nat) :=
  match self.enclosing cspan with
  | none => self.attach_top_level cspan
  | some enc =>
    let preceding := self.preceding (self.children enc) cspan
    let following := self.following (self.children enc) cspan
    let preceding_end := preceding.elim (self.span enc).start fun p => (self.span p).stop
    -- A keyword owns no node: a comment behind one leads what follows even on the same line.
    let clause_kw_before := (parsed.clause_marks.in_span (self.span enc)).any fun mark =>
      mark.offset ≥ preceding_end && mark.offset < cspan.start
    match preceding, following with
    | some p, some f =>
      let own_line := newline_between parsed.source (self.span p).stop cspan.start
      if own_line || clause_kw_before then some (.Leading, f) else some (.Trailing, p)
    | some p, none =>
      if parsed.empty_calls.contains (self.anchor enc) then some (.Dangling, enc)
      else some (.Trailing, p)
    | none, some f => some (.Leading, f)
    | none, none => some (.Dangling, enc)

def attach (self : Pass) (parsed : Parsed) (out : CommentAttachments) (comment : TriviaRange) :
    CommentAttachments :=
  let out := { out with attached := out.attached + 1 }
  match self.classify parsed comment.span with
  | none => out
  | some (position, i) => out.push (self.anchor i) position comment

end Pass

/-- The attachment table of a parse. -/
def CommentAttachments.compute (parsed : Parsed) : CommentAttachments :=
  let comments := parsed.trivia.ranges.filter is_comment
  if comments.isEmpty then .default
  else
    let pass := Pass.of (inventory parsed.statements)
    let out := comments.foldl (pass.attach parsed) { CommentAttachments.default with comments }
    { out with span_to_id := pass.span_to_id }

end squonk.format.comments
