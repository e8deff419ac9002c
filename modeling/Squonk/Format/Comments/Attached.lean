import Squonk.Format.Comments

/-!
# Where comments are found

A comment is classified on the tree of the nodes, stored under the id of a node and looked up under
the span of one. The ids stand between the two: where no two nodes share one, each comment is found
at one position of one span, which it stands beside or within.
-/

open squonk.document squonk.parser squonk.tokenizer nesting search
open squonk.tokenizer.scan (TriviaRange)

namespace squonk.format.comments

/-! ## The tree of the nodes -/

theorem contains_iff {outer inner : Span} :
    contains outer inner = true ↔ outer.is_synthetic = false ∧ inner.is_synthetic = false ∧
      outer.start ≤ inner.start ∧ inner.stop ≤ outer.stop := by
  simp [contains, and_assoc]

theorem passed_holds (nodes : List NodeInfo) : Forest.Passed (holds nodes) := by
  intro a b c hab hbc
  obtain ⟨ha, -, hstart, hstop⟩ := contains_iff.mp hab
  obtain ⟨-, hc, hstart', hstop'⟩ := contains_iff.mp hbc
  exact contains_iff.mpr ⟨ha, hc, hstart.trans hstart', hstop'.trans hstop⟩

theorem tree_eq (nodes : List NodeInfo) :
    (Pass.of nodes).roots = (Forest.rebuild (holds nodes) (List.range nodes.length)).roots ∧
      ∀ i, (Pass.of nodes).children i =
        (Forest.rebuild (holds nodes) (List.range nodes.length)).kids i :=
  Links.pushes_empty (passed_holds nodes) List.nodup_range

theorem root_lt {nodes : List NodeInfo} {i : Nat} (h : i ∈ (Pass.of nodes).roots) :
    i < nodes.length := by
  rw [(tree_eq nodes).1] at h
  have hmem := Forest.roots_subset h
  rw [Forest.rebuild_preorder] at hmem
  exact List.mem_range.mp hmem

theorem child_lt {nodes : List NodeInfo} {i k : Nat} (h : k ∈ (Pass.of nodes).children i) :
    k < nodes.length := by
  rw [(tree_eq nodes).2] at h
  have hmem := Forest.kids_subset h
  rw [Forest.rebuild_preorder] at hmem
  exact List.mem_range.mp hmem

/-- The first node is a root. -/
theorem zero_mem_roots {nodes : List NodeInfo} (h : nodes ≠ []) : 0 ∈ (Pass.of nodes).roots := by
  obtain ⟨n, hn⟩ := Nat.exists_eq_succ_of_ne_zero (mt List.length_eq_zero_iff.mp h)
  rw [(tree_eq nodes).1, hn, List.range_succ_eq_map, Forest.rebuild_cons]
  exact List.mem_cons_self

theorem node_at_mem {nodes : List NodeInfo} {i : Nat} (h : i < nodes.length) :
    node_at nodes i ∈ nodes := by
  rw [node_at, List.getD_eq_getElem _ _ h]
  exact List.getElem_mem h

theorem exists_node_at {nodes : List NodeInfo} {node : NodeInfo} (h : node ∈ nodes) :
    ∃ i, i < nodes.length ∧ node_at nodes i = node := by
  obtain ⟨i, hi, rfl⟩ := List.mem_iff_getElem.mp h
  exact ⟨i, hi, List.getD_eq_getElem _ _ hi⟩

/-! ## The index of the spans -/

theorem span_index_concat (nodes : List NodeInfo) (node : NodeInfo) :
    span_index (nodes ++ [node]) =
      Function.update (span_index nodes) node.span (some node.id) := List.foldl_concat ..

theorem span_index_some {nodes : List NodeInfo} {span : Span} {id : Nat}
    (h : span_index nodes span = some id) : ⟨id, span⟩ ∈ nodes := by
  induction nodes using List.reverseRecOn with
  | nil => cases h
  | append_singleton nodes node ih =>
    rw [span_index_concat, Function.update_apply] at h
    split at h
    · next hspan =>
      obtain rfl := Option.some.inj h
      subst hspan
      exact List.mem_append_right _ List.mem_cons_self
    · exact List.mem_append_left _ (ih h)

theorem span_index_found {nodes : List NodeInfo} {node : NodeInfo} (h : node ∈ nodes) :
    ∃ id, span_index nodes node.span = some id := by
  induction nodes using List.reverseRecOn with
  | nil => cases h
  | append_singleton nodes last ih =>
    rw [span_index_concat, Function.update_apply]
    split
    · exact ⟨last.id, rfl⟩
    · next hspan =>
      obtain h | h := List.mem_append.mp h
      · exact ih h
      · exact absurd (congrArg NodeInfo.span (List.mem_singleton.mp h)) hspan

theorem anchor_eq {nodes : List NodeInfo} {i : Nat} (h : i < nodes.length) :
    span_index nodes ((Pass.of nodes).span i) = some ((Pass.of nodes).anchor i) := by
  obtain ⟨id, hid⟩ := span_index_found (node_at_mem h)
  have hspan : (Pass.of nodes).span_to_id ((Pass.of nodes).span i) = some id := hid
  rw [Pass.anchor, hspan]
  exact hid

/-- Two spans that are found under one id are one span. -/
theorem span_index_inj {nodes : List NodeInfo} (hids : (nodes.map NodeInfo.id).Nodup)
    {span span' : Span} {id : Nat} (h : span_index nodes span = some id)
    (h' : span_index nodes span' = some id) : span = span' := by
  have hone := List.inj_on_of_nodup_map hids (span_index_some h) (span_index_some h') rfl
  exact congrArg NodeInfo.span hone

/-! ## Classification -/

/-- Where a comment stands that has a position at a span. -/
def Beside : Position → Span → Span → Prop
  | .Leading, span, cspan => cspan.stop ≤ span.start
  | .Trailing, span, cspan => span.stop ≤ cspan.start
  | .Dangling, span, cspan => contains span cspan = true

/-- No end of the span stands inside of the comment, nor does the span. -/
def Uncut (span cspan : Span) : Prop :=
  contains span cspan = true ∨ span.stop ≤ cspan.start ∨ cspan.stop ≤ span.start

namespace Pass

variable {nodes : List NodeInfo} {cspan : Span} {items : List Nat} {i : Nat}

theorem preceding_some {self : Pass} (h : self.preceding items cspan = some i) :
    i ∈ items ∧ (self.span i).stop ≤ cspan.start := by
  obtain ⟨hmem, hpass⟩ := mem_of_pick h
  exact ⟨hmem, of_decide_eq_true hpass⟩

theorem following_some {self : Pass} (h : self.following items cspan = some i) :
    i ∈ items ∧ cspan.stop ≤ (self.span i).start := by
  obtain ⟨hmem, hpass⟩ := mem_of_pick h
  exact ⟨hmem, of_decide_eq_true hpass⟩

theorem enclosing_some {self : Pass} (h : self.enclosing cspan = some i) :
    i < self.nodes.length ∧ contains (self.span i) cspan = true := by
  obtain ⟨hmem, hpass⟩ := mem_of_pick h
  exact ⟨List.mem_range.mp hmem, hpass⟩

/-- The ways to classify a comment: on the roots where no node encloses it, else on the children
of the enclosing node, or at that node itself. -/
theorem classify_cases {self : Pass} {parsed : Parsed} {position : Position}
    (h : self.classify parsed cspan = some (position, i)) :
    (∃ items, (self.enclosing cspan = none ∧ items = self.roots ∨
        ∃ enc, self.enclosing cspan = some enc ∧ items = self.children enc) ∧
      (position = .Leading ∧ self.following items cspan = some i ∨
        position = .Trailing ∧ self.preceding items cspan = some i)) ∨
      position = .Dangling ∧ self.enclosing cspan = some i ∧
        self.following (self.children i) cspan = none := by
  rw [classify] at h
  split at h
  · next henclosing =>
    left
    refine ⟨_, .inl ⟨henclosing, rfl⟩, ?_⟩
    rw [attach_top_level] at h
    cases hfollowing : self.following self.roots cspan with
    | some f =>
      rw [hfollowing] at h
      cases h
      exact .inl ⟨rfl, rfl⟩
    | none =>
      rw [hfollowing] at h
      cases hpreceding : self.preceding self.roots cspan with
      | some p =>
        rw [hpreceding] at h
        cases h
        exact .inr ⟨rfl, rfl⟩
      | none =>
        rw [hpreceding] at h
        cases h
  · next enc henclosing =>
    dsimp only at h
    split at h
    · next hpreceding hfollowing =>
      left
      refine ⟨_, .inr ⟨enc, henclosing, rfl⟩, ?_⟩
      split at h
      · cases h; exact .inl ⟨rfl, hfollowing⟩
      · cases h; exact .inr ⟨rfl, hpreceding⟩
    · next hpreceding hfollowing =>
      split at h
      · cases h; exact .inr ⟨rfl, henclosing, hfollowing⟩
      · cases h
        exact .inl ⟨_, .inr ⟨enc, henclosing, rfl⟩, .inr ⟨rfl, hpreceding⟩⟩
    · next _ hfollowing =>
      cases h
      exact .inl ⟨_, .inr ⟨enc, henclosing, rfl⟩, .inl ⟨rfl, hfollowing⟩⟩
    · next _ hfollowing =>
      cases h
      exact .inr ⟨rfl, henclosing, hfollowing⟩

/-- A comment stands beside or within the node it is classified at. -/
theorem classify_beside {parsed : Parsed} {position : Position}
    (h : (Pass.of nodes).classify parsed cspan = some (position, i)) :
    i < nodes.length ∧ Beside position ((Pass.of nodes).span i) cspan := by
  obtain ⟨items, hitems, hend⟩ | ⟨rfl, henclosing, -⟩ := classify_cases h
  · have hlt : ∀ i ∈ items, i < nodes.length := by
      obtain ⟨-, rfl⟩ | ⟨enc, -, rfl⟩ := hitems
      · exact fun i => root_lt
      · exact fun i => child_lt
    obtain ⟨rfl, hfollowing⟩ | ⟨rfl, hpreceding⟩ := hend
    · obtain ⟨hmem, hstart⟩ := following_some hfollowing
      exact ⟨hlt i hmem, hstart⟩
    · obtain ⟨hmem, hstop⟩ := preceding_some hpreceding
      exact ⟨hlt i hmem, hstop⟩
  · exact enclosing_some henclosing

/-- A comment that no node is cut by is classified as soon as there is a node. -/
theorem classify_found {parsed : Parsed} (hnodes : nodes ≠ [])
    (huncut : ∀ node ∈ nodes, Uncut node.span cspan) :
    (Pass.of nodes).classify parsed cspan ≠ none := by
  intro h
  rw [classify] at h
  split at h
  · next henclosing =>
    have hlt := root_lt (zero_mem_roots hnodes)
    have hroot := zero_mem_roots hnodes
    rw [attach_top_level] at h
    split at h
    · cases h
    · cases h
    · next hfollowing hpreceding =>
      obtain hcontains | hstop | hstart := huncut _ (node_at_mem hlt)
      · have hnone := pick_eq_none_iff.mp henclosing 0 (List.mem_range.mpr hlt)
        rw [Pass.span, Pass.of, hcontains] at hnone
        cases hnone
      · exact of_decide_eq_false (pick_eq_none_iff.mp hpreceding 0 hroot) hstop
      · exact of_decide_eq_false (pick_eq_none_iff.mp hfollowing 0 hroot) hstart
  · dsimp only at h
    split at h
    · split at h
      · cases h
      · cases h
    · split at h
      · cases h
      · cases h
    · cases h
    · cases h

end Pass

/-! ## Tables -/

theorem NodeComments.of_push (self : NodeComments) (comment : TriviaRange)
    (position position' : Position) : (self.push comment position').of position =
      self.of position ++ if position' = position then [comment] else [] := by
  cases position <;> cases position' <;> simp [push, of]

/-- Attaching adds to each position of each id the comments that are classified there. -/
theorem foldl_attach (pass : Pass) (parsed : Parsed) (comments : List TriviaRange)
    (out : CommentAttachments) (id : Nat) (position : Position) :
    ((comments.foldl (pass.attach parsed) out).by_anchor id).of position =
      (out.by_anchor id).of position ++ comments.filter fun comment =>
        (pass.classify parsed comment.span).any fun at_node =>
          at_node.1 = position && pass.anchor at_node.2 = id := by
  induction comments generalizing out with
  | nil => exact (List.append_nil _).symm
  | cons comment comments ih =>
    rw [List.foldl_cons, ih, List.filter_cons]
    have hone : ((pass.attach parsed out comment).by_anchor id).of position =
        (out.by_anchor id).of position ++
          if (pass.classify parsed comment.span).any fun at_node =>
            at_node.1 = position && pass.anchor at_node.2 = id then [comment] else [] := by
      rw [Pass.attach]
      cases hclassify : pass.classify parsed comment.span with
      | none => exact (List.append_nil _).symm
      | some at_node =>
        obtain ⟨position', i⟩ := at_node
        dsimp only [CommentAttachments.push, Option.any_some]
        by_cases hid : pass.anchor i = id
        · subst hid
          rw [Function.update_self, NodeComments.of_push]
          simp
        · rw [Function.update_of_ne (Ne.symm hid)]
          simp [hid]
    rw [hone, List.append_assoc]
    split
    · rfl
    · rfl

/-- What the table has for a span are the comments classified at a node with this span. -/
theorem position_for_compute (parsed : Parsed)
    (hids : ((inventory parsed.statements).map NodeInfo.id).Nodup) (position : Position)
    (span : Span) : (CommentAttachments.compute parsed).position_for position span =
      (parsed.trivia.ranges.filter is_comment).filter fun comment =>
        ((Pass.of (inventory parsed.statements)).classify parsed comment.span).any fun at_node =>
          at_node.1 = position &&
            (Pass.of (inventory parsed.statements)).span at_node.2 = span := by
  rw [CommentAttachments.compute]
  dsimp only
  split
  · next hempty => rw [List.isEmpty_iff.mp hempty]; rfl
  · rw [CommentAttachments.position_for]
    dsimp only
    split
    · next hnone =>
      symm
      apply List.filter_eq_nil_iff.mpr
      intro comment _ hany
      obtain ⟨⟨position', i⟩, hclassify, hat⟩ := (Option.any_eq_true _ _).mp hany
      simp only [Bool.and_eq_true, decide_eq_true_eq] at hat
      have hanchor := anchor_eq (Pass.classify_beside hclassify).1
      rw [hat.2] at hanchor
      cases hnone.symm.trans hanchor
    · next id hid =>
      rw [foldl_attach]
      simp only [CommentAttachments.default]
      have hnil : NodeComments.default.of position = [] := by cases position <;> rfl
      rw [hnil, List.nil_append]
      apply List.filter_congr
      intro comment _
      cases hclassify : (Pass.of (inventory parsed.statements)).classify parsed comment.span with
      | none => rfl
      | some at_node =>
        obtain ⟨position', i⟩ := at_node
        have hanchor := anchor_eq (Pass.classify_beside hclassify).1
        have hsame : (Pass.of (inventory parsed.statements)).anchor i = id ↔
            (Pass.of (inventory parsed.statements)).span i = span := by
          constructor
          · intro h
            rw [h] at hanchor
            exact span_index_inj hids hanchor hid
          · intro h
            rw [h] at hanchor
            exact Option.some.inj (hanchor.symm.trans hid)
        simp only [Option.any_some, hsame]

/-- Each comment has at most one position at one span, the position it stands at beside a node of
the tree, and is found there and nowhere else, in the order of the source. One that no node is cut
by has such a place. -/
theorem comments_attached (parsed : Parsed)
    (hids : ((inventory parsed.statements).map NodeInfo.id).Nodup) :
    ∃ place : TriviaRange → Option (Position × Span),
      (∀ position span, (CommentAttachments.compute parsed).position_for position span =
        (parsed.trivia.ranges.filter is_comment).filter fun comment =>
          place comment = some (position, span)) ∧
      (∀ comment position span, place comment = some (position, span) →
        span ∈ (inventory parsed.statements).map NodeInfo.span ∧
          Beside position span comment.span) ∧
      ∀ comment, inventory parsed.statements ≠ [] →
        (∀ node ∈ inventory parsed.statements, Uncut node.span comment.span) →
          place comment ≠ none := by
  refine ⟨fun comment => ((Pass.of (inventory parsed.statements)).classify parsed
    comment.span).map fun at_node =>
      (at_node.1, (Pass.of (inventory parsed.statements)).span at_node.2), ?_, ?_, ?_⟩
  · intro position span
    rw [position_for_compute parsed hids]
    apply List.filter_congr
    intro comment _
    rw [Bool.eq_iff_iff, decide_eq_true_iff, Option.any_eq_true, Option.map_eq_some_iff]
    simp [Prod.ext_iff]
  · intro comment position span hplace
    obtain ⟨⟨position', i⟩, hclassify, hat⟩ := Option.map_eq_some_iff.mp hplace
    obtain ⟨rfl, rfl⟩ := Prod.mk.inj hat
    obtain ⟨hlt, hbeside⟩ := Pass.classify_beside hclassify
    exact ⟨List.mem_map_of_mem (node_at_mem hlt), hbeside⟩
  · intro comment hnodes huncut hnone
    exact Pass.classify_found hnodes huncut (Option.map_eq_none_iff.mp hnone)

/-- The parse of `SELECT a, /* c */ b`. -/
def commented_list : Parsed where
  source := encode "SELECT a, /* c */ b".toList
  trivia := ⟨[⟨.BlockComment, ⟨10, 17⟩⟩], by simp, by simp⟩
  clause_marks := ⟨[], .nil⟩
  statements := [.spanned .Query ⟨⟨0, 19⟩, 0⟩ none (by simp)
    [.spanned .Ident ⟨⟨7, 8⟩, 1⟩ none (by simp) [],
      .spanned .Ident ⟨⟨18, 19⟩, 2⟩ none (by simp) []]]
  empty_calls := []

theorem comments_attached_list :
    ∃ place : TriviaRange → Option (Position × Span),
      (∀ position span, (CommentAttachments.compute commented_list).position_for position span =
        (commented_list.trivia.ranges.filter is_comment).filter fun comment =>
          place comment = some (position, span)) ∧
      (∀ comment position span, place comment = some (position, span) →
        span ∈ (inventory commented_list.statements).map NodeInfo.span ∧
          Beside position span comment.span) ∧
      ∀ comment, inventory commented_list.statements ≠ [] →
        (∀ node ∈ inventory commented_list.statements, Uncut node.span comment.span) →
          place comment ≠ none :=
  comments_attached commented_list (by decide)

end squonk.format.comments
