import Squonk.Format.Comments.Attached

/-!
# Comments stay where they were

The tree that comments are classified on is read off spans alone. It is the tree of the statements
exactly where their nodes nest as their spans do. Where siblings have no text in common either, no
node stands between a comment and the node it is found at.
-/

open squonk.document squonk.parser squonk.tokenizer nesting search
open squonk.tokenizer.scan (TriviaRange)

namespace squonk.format.comments

/-! ## The tree of the statements -/

mutual

/-- The node in front of some trees. Where no text stands for it, what is below takes its place. -/
def backed_node : Node → Forest NodeInfo → Forest NodeInfo
  | .spanned _ info _ _ children, behind =>
    if info.span.is_synthetic then backed_nodes children behind
    else .node ⟨info.node_id, info.span⟩ (backed_nodes children .nil) behind
  | .bare _ _ _ children, behind => backed_nodes children behind

def backed_nodes : List Node → Forest NodeInfo → Forest NodeInfo
  | [], behind => behind
  | node :: nodes, behind => backed_node node (backed_nodes nodes behind)

end

/-- The nodes that some text stands for, each below the nearest such node above it. -/
def backed (statements : List Node) : Forest NodeInfo := backed_nodes statements .nil

theorem inventory_spanned {info : Meta} {kind : NodeKind} {symbol : Option interner.Symbol}
    {typed : symbol.isSome → kind.bears_symbol} {children nodes : List Node} :
    inventory (.spanned kind info symbol typed children :: nodes) =
      (if info.span.is_synthetic then [] else [⟨info.node_id, info.span⟩]) ++
        inventory children ++ inventory nodes := by
  simp only [inventory, metas, Node.nodesAll, Node.nodes, List.cons_append, List.filterMap_append,
    List.filterMap_cons, List.filter_cons, List.filter_append]
  cases info.span.is_synthetic with
  | true => simp
  | false => simp

theorem inventory_bare {kind : BareKind} {symbol : Option interner.Symbol}
    {typed : symbol.isSome → kind.bears_symbol} {children nodes : List Node} :
    inventory (.bare kind symbol typed children :: nodes) =
      inventory children ++ inventory nodes := by
  simp only [inventory, metas, Node.nodesAll, Node.nodes, List.cons_append, List.filterMap_append,
    List.filterMap_cons, List.filter_append, List.map_append]

theorem inventory_cons (node : Node) (nodes : List Node) :
    inventory (node :: nodes) = inventory [node] ++ inventory nodes := by
  simp only [inventory, metas, Node.nodesAll, List.append_nil, List.filterMap_append,
    List.filter_append, List.map_append]

mutual

theorem backed_node_preorder (node : Node) (behind : Forest NodeInfo) :
    (backed_node node behind).preorder = inventory [node] ++ behind.preorder := by
  cases node with
  | spanned kind info symbol typed children =>
    have hbelow := backed_nodes_preorder children
    rw [backed_node, inventory_spanned]
    cases hsynthetic : info.span.is_synthetic with
    | true =>
      rw [if_pos rfl, hbelow, if_pos rfl]
      simp [inventory, metas, Node.nodesAll]
    | false =>
      rw [if_neg Bool.false_ne_true, Forest.preorder_node, hbelow, if_neg Bool.false_ne_true]
      simp [inventory, metas, Node.nodesAll]
  | bare kind symbol typed children =>
    rw [backed_node, inventory_bare, backed_nodes_preorder children]
    simp [inventory, metas, Node.nodesAll]

theorem backed_nodes_preorder (nodes : List Node) (behind : Forest NodeInfo) :
    (backed_nodes nodes behind).preorder = inventory nodes ++ behind.preorder := by
  cases nodes with
  | nil => rfl
  | cons node nodes =>
    rw [backed_nodes, backed_node_preorder node, backed_nodes_preorder nodes,
      inventory_cons node nodes, List.append_assoc]

end

theorem backed_preorder (statements : List Node) :
    (backed statements).preorder = inventory statements := by
  rw [backed, backed_nodes_preorder]
  exact List.append_nil _

/-- The tree of the statements by the places of the nodes. -/
def indexed (statements : List Node) : Forest Nat := (backed statements).places 0

theorem indexed_preorder (statements : List Node) :
    (indexed statements).preorder = List.range (inventory statements).length := by
  rw [indexed, Forest.places_preorder, Forest.size, backed_preorder, List.range_eq_range']

theorem indexed_map (statements : List Node) :
    (indexed statements).map (node_at (inventory statements)) = backed statements := by
  apply Forest.places_map
  intro i hi
  rw [Nat.zero_add, node_at]
  simp only [← backed_preorder]
  rw [List.getD_eq_getElem _ _ hi]
  rfl

/-- Each node lies within the one above it, and none contains the next one beside it. -/
def Nests (statements : List Node) : Prop :=
  (backed statements).Nested fun outer inner => contains outer.span inner.span

theorem indexed_nested (statements : List Node) :
    (indexed statements).Nested (holds (inventory statements)) ↔ Nests statements := by
  rw [Nests, ← indexed_map statements, Forest.nested_map]
  rfl

/-- The tree read off the spans is the tree of the statements exactly where their nodes nest. -/
theorem containment_tree_iff (statements : List Node) :
    ((containment_tree (inventory statements)).roots = (indexed statements).roots ∧
      ∀ i, (containment_tree (inventory statements)).children i = (indexed statements).kids i) ↔
        Nests statements := by
  have hnodup : (indexed statements).preorder.Nodup := by
    rw [indexed_preorder]
    exact List.nodup_range
  rw [← indexed_nested, ← Links.pushes_iff (passed_holds _) hnodup, indexed_preorder]
  rfl

/-! ## Neighbours -/

def Disjoint (span span' : Span) : Prop := span.stop ≤ span'.start ∨ span'.stop ≤ span.start

/-- Spans as a parser gives them to the nodes of a source. -/
structure Placed (statements : List Node) : Prop where
  nests : Nests statements
  apart : (backed statements).Apart fun node node' => Disjoint node.span node'.span
  ordered : ∀ node ∈ inventory statements, node.span.start ≤ node.span.stop

/-- No node stands between the comment and the span; a comment that is inside of its node has no
other one around it and none behind it there. -/
def Nearest (nodes : List NodeInfo) (cspan : Span) : Position → Span → Prop
  | .Leading, span => ∀ node ∈ nodes, cspan.stop ≤ node.span.start → span.start ≤ node.span.start
  | .Trailing, span => ∀ node ∈ nodes, node.span.stop ≤ cspan.start → node.span.stop ≤ span.stop
  | .Dangling, span =>
    (∀ node ∈ nodes, contains node.span cspan = true → contains node.span span = true) ∧
      ∀ node ∈ nodes, cspan.stop ≤ node.span.start → span.stop ≤ node.span.start

theorem disjoint_of_uncut {span cspan : Span} (h : Uncut span cspan)
    (hout : contains span cspan = false) : Disjoint span cspan := by
  obtain h | h := h
  · rw [h] at hout
    cases hout
  · exact h

theorem len_le_of_contains {outer inner : Span} (h : contains outer inner = true) :
    len inner ≤ len outer := by
  obtain ⟨houter, hinner, hstart, hstop⟩ := contains_iff.mp h
  rw [len, len, houter, hinner, if_neg Bool.false_ne_true, if_neg Bool.false_ne_true]
  omega

/-- No node around the comment that stands behind the enclosing one is as short. -/
theorem Pass.enclosing_best {nodes : List NodeInfo} {cspan : Span} {enc k : Nat}
    (h : (Pass.of nodes).enclosing cspan = some enc) (hk : k < nodes.length)
    (hcontains : contains (node_at nodes k).span cspan = true)
    (hlen : len (node_at nodes k).span ≤ len (node_at nodes enc).span) (hlt : enc < k) : False := by
  have hbest := pick_best (fun i => by simp) (fun i j k hij hjk => by
    simp only [Bool.or_eq_true, Bool.and_eq_true, decide_eq_true_eq, beq_iff_eq] at hij hjk ⊢
    omega) h (List.mem_range.mpr hk) hcontains
  simp only [Pass.span, Pass.of, Bool.or_eq_false_iff, Bool.and_eq_false_iff,
    decide_eq_false_iff_not, beq_eq_false_iff_ne] at hbest
  have hnot := of_decide_eq_false hbest.1
  omega

namespace Placed

variable {statements : List Node} {cspan : Span}

/-- The tree of a parse whose spans are placed. -/
theorem tree (h : Placed statements) :
    (Pass.of (inventory statements)).roots = (indexed statements).roots ∧
      ∀ i, (Pass.of (inventory statements)).children i = (indexed statements).kids i :=
  (containment_tree_iff statements).mpr h.nests

section

variable (h : Placed statements)
include h

/-- How a node stands to the one that encloses the comment. -/
theorem enclosing_cases {enc m : Nat}
    (henclosing : (Pass.of (inventory statements)).enclosing cspan = some enc)
    (hm : m < (inventory statements).length) :
    m = enc ∨ holds (inventory statements) m enc = true ∨
      (∃ kid ∈ (Pass.of (inventory statements)).children enc,
        (kid = m ∨ holds (inventory statements) kid m = true) ∧
          contains (node_at (inventory statements) kid).span cspan = false) ∨
      Disjoint (node_at (inventory statements) m).span
        (node_at (inventory statements) enc).span := by
  have hnested := (indexed_nested statements).mpr h.nests
  have hmem : ∀ k, k < (inventory statements).length → k ∈ (indexed statements).preorder := by
    intro k hk
    rw [indexed_preorder]
    exact List.mem_range.mpr hk
  have hapart : (indexed statements).Apart fun i j =>
      Disjoint (node_at (inventory statements) i).span (node_at (inventory statements) j).span := by
    have hmapped := h.apart
    rw [← indexed_map statements, Forest.apart_map] at hmapped
    exact hmapped
  have hsymm : ∀ i j, Disjoint (node_at (inventory statements) i).span
      (node_at (inventory statements) j).span → Disjoint (node_at (inventory statements) j).span
        (node_at (inventory statements) i).span := fun _ _ => Or.symm
  have hwithin : ∀ i j k, Disjoint (node_at (inventory statements) i).span
      (node_at (inventory statements) j).span → holds (inventory statements) i k = true →
        Disjoint (node_at (inventory statements) k).span
          (node_at (inventory statements) j).span := by
    intro i j k hdisjoint hholds
    obtain ⟨-, -, hstart, hstop⟩ := contains_iff.mp hholds
    obtain hdisjoint | hdisjoint := hdisjoint
    · exact .inl (hstop.trans hdisjoint)
    · exact .inr (hdisjoint.trans hstart)
  obtain ⟨hlt, -⟩ := Pass.enclosing_some henclosing
  obtain hsame | hholds | ⟨kid, hkid, hkid'⟩ | hdisjoint := hnested.mem_cases (passed_holds _)
    hsymm hwithin hapart (hmem enc hlt) (hmem m hm)
  · exact .inl hsame
  · exact .inr (.inl hholds)
  · refine .inr (.inr (.inl ⟨kid, ?_, hkid', ?_⟩))
    · rw [h.tree.2]
      exact hkid
    · -- A kid around the comment would be no longer than the enclosing node and come behind it.
      have hlt' : kid < (inventory statements).length := by
        rw [← h.tree.2] at hkid
        exact child_lt hkid
      by_contra hcontains
      rw [Bool.not_eq_false] at hcontains
      have horder : (indexed statements).preorder.Pairwise (· < ·) := by
        rw [indexed_preorder]
        exact List.pairwise_lt_range
      exact Pass.enclosing_best henclosing hlt' hcontains
        (len_le_of_contains (hnested.holds_kid hkid)) (Forest.lt_of_mem_kids horder hkid)
  · exact .inr (.inr (.inr hdisjoint))

/-- A node around the comment is around the one that encloses it. -/
theorem around_enclosing (hspan : cspan.start < cspan.stop) {enc m : Nat}
    (henclosing : (Pass.of (inventory statements)).enclosing cspan = some enc)
    (hm : m < (inventory statements).length)
    (hcontains : contains (node_at (inventory statements) m).span cspan = true) :
    contains (node_at (inventory statements) m).span
      (node_at (inventory statements) enc).span = true := by
  have henc : contains (node_at (inventory statements) enc).span cspan = true :=
    (Pass.enclosing_some henclosing).2
  obtain ⟨hsynthetic, hcomment, hstart, hstop⟩ := contains_iff.mp hcontains
  obtain rfl | hholds | ⟨kid, -, rfl | hkid, hout⟩ | hdisjoint :=
    h.enclosing_cases henclosing hm
  · exact contains_iff.mpr ⟨hsynthetic, hsynthetic, le_rfl, le_rfl⟩
  · exact hholds
  · rw [hcontains] at hout
    cases hout
  · obtain ⟨hsynthetic', -, hstart', hstop'⟩ := contains_iff.mp hkid
    rw [contains_iff.mpr ⟨hsynthetic', hcomment, hstart'.trans hstart, hstop.trans hstop'⟩] at hout
    cases hout
  · obtain ⟨-, -, hstart', hstop'⟩ := contains_iff.mp henc
    obtain hdisjoint | hdisjoint := hdisjoint
    · omega
    · omega

variable {items : List Nat}
  (huncut : ∀ node ∈ inventory statements, Uncut node.span cspan)
  (hitems : (Pass.of (inventory statements)).enclosing cspan = none ∧
      items = (Pass.of (inventory statements)).roots ∨
    ∃ enc, (Pass.of (inventory statements)).enclosing cspan = some enc ∧
      items = (Pass.of (inventory statements)).children enc)
include hitems

/-- An item lies within the enclosing node. -/
theorem item_within {enc i : Nat} (hi : i ∈ items)
    (henclosing : (Pass.of (inventory statements)).enclosing cspan = some enc) :
    holds (inventory statements) enc i = true := by
  obtain ⟨hnone, -⟩ | ⟨enc', henclosing', rfl⟩ := hitems
  · rw [hnone] at henclosing
    cases henclosing
  · obtain rfl := Option.some.inj (henclosing.symm.trans henclosing')
    rw [h.tree.2] at hi
    exact ((indexed_nested statements).mpr h.nests).holds_kid hi

include huncut

/-- A node that does not contain the comment is within one of the items the comment is classified
on, which the comment stands beside, or it has nothing in common with the enclosing node. -/
theorem side_cases {m : Nat} (hm : m < (inventory statements).length)
    (hout : contains (node_at (inventory statements) m).span cspan = false) :
    (∃ k ∈ items, (k = m ∨ holds (inventory statements) k m = true) ∧
      Disjoint (node_at (inventory statements) k).span cspan) ∨
      ∃ enc, (Pass.of (inventory statements)).enclosing cspan = some enc ∧
        Disjoint (node_at (inventory statements) m).span
          (node_at (inventory statements) enc).span := by
  obtain ⟨henclosing, rfl⟩ | ⟨enc, henclosing, rfl⟩ := hitems
  · have hnested := (indexed_nested statements).mpr h.nests
    have hmem : m ∈ (indexed statements).preorder := by
      rw [indexed_preorder]
      exact List.mem_range.mpr hm
    obtain ⟨root, hroot, hwithin⟩ := hnested.root_of (passed_holds _) hmem
    rw [← h.tree.1] at hroot
    have hlt := root_lt hroot
    have hroot' := pick_eq_none_iff.mp henclosing root (List.mem_range.mpr hlt)
    exact .inl ⟨root, hroot, hwithin, disjoint_of_uncut (huncut _ (node_at_mem hlt)) hroot'⟩
  · obtain ⟨hlt, hcontains⟩ := Pass.enclosing_some henclosing
    obtain rfl | hholds | ⟨kid, hkid, hkid', hcut⟩ | hdisjoint :=
      h.enclosing_cases henclosing hm
    · rw [Pass.span, Pass.of, hout] at hcontains
      cases hcontains
    · obtain ⟨hsynthetic, -, hstart, hstop⟩ := contains_iff.mp hholds
      obtain ⟨-, hsynthetic', hstart', hstop'⟩ := contains_iff.mp hcontains
      rw [contains_iff.mpr ⟨hsynthetic, hsynthetic', hstart.trans hstart', hstop'.trans hstop⟩]
        at hout
      cases hout
    · exact .inl ⟨kid, hkid, hkid', disjoint_of_uncut (huncut _ (node_at_mem (child_lt hkid))) hcut⟩
    · exact .inr ⟨enc, henclosing, hdisjoint⟩

/-- A node behind the comment is within an item that is, or behind the enclosing node. -/
theorem behind_cases (hspan : cspan.start < cspan.stop) {m : Nat}
    (hm : m < (inventory statements).length)
    (hbehind : cspan.stop ≤ (node_at (inventory statements) m).span.start) :
    (∃ k ∈ items, cspan.stop ≤ (node_at (inventory statements) k).span.start ∧
      (node_at (inventory statements) k).span.start ≤
        (node_at (inventory statements) m).span.start) ∨
      ∃ enc, (Pass.of (inventory statements)).enclosing cspan = some enc ∧
        (node_at (inventory statements) enc).span.stop ≤
          (node_at (inventory statements) m).span.start := by
  have hout : contains (node_at (inventory statements) m).span cspan = false := by
    by_contra hcontains
    obtain ⟨-, -, hstart, -⟩ := contains_iff.mp (Bool.not_eq_false _ ▸ hcontains)
    omega
  have hordered := h.ordered _ (node_at_mem hm)
  obtain ⟨k, hk, hwithin, hside⟩ | ⟨enc, henclosing, hside⟩ :=
    h.side_cases huncut hitems hm hout
  · have hbounds : (node_at (inventory statements) k).span.start ≤
          (node_at (inventory statements) m).span.start ∧
        (node_at (inventory statements) m).span.stop ≤
          (node_at (inventory statements) k).span.stop := by
      obtain rfl | hholds := hwithin
      · exact ⟨le_rfl, le_rfl⟩
      · exact (contains_iff.mp hholds).2.2
    obtain hside | hside := hside
    · omega
    · exact .inl ⟨k, hk, hside, hbounds.1⟩
  · obtain ⟨-, -, hstart, -⟩ := contains_iff.mp (Pass.enclosing_some henclosing).2
    have hstart' : (node_at (inventory statements) enc).span.start ≤ cspan.start := hstart
    obtain hside | hside := hside
    · omega
    · exact .inr ⟨enc, henclosing, hside⟩

/-- A node in front of the comment is within an item that is, or in front of the enclosing node. -/
theorem front_cases (hspan : cspan.start < cspan.stop) {m : Nat}
    (hm : m < (inventory statements).length)
    (hfront : (node_at (inventory statements) m).span.stop ≤ cspan.start) :
    (∃ k ∈ items, (node_at (inventory statements) k).span.stop ≤ cspan.start ∧
      (node_at (inventory statements) m).span.stop ≤
        (node_at (inventory statements) k).span.stop) ∨
      ∃ enc, (Pass.of (inventory statements)).enclosing cspan = some enc ∧
        (node_at (inventory statements) m).span.stop ≤
          (node_at (inventory statements) enc).span.start := by
  have hout : contains (node_at (inventory statements) m).span cspan = false := by
    by_contra hcontains
    obtain ⟨-, -, -, hstop⟩ := contains_iff.mp (Bool.not_eq_false _ ▸ hcontains)
    omega
  have hordered := h.ordered _ (node_at_mem hm)
  obtain ⟨k, hk, hwithin, hside⟩ | ⟨enc, henclosing, hside⟩ :=
    h.side_cases huncut hitems hm hout
  · have hbounds : (node_at (inventory statements) k).span.start ≤
          (node_at (inventory statements) m).span.start ∧
        (node_at (inventory statements) m).span.stop ≤
          (node_at (inventory statements) k).span.stop := by
      obtain rfl | hholds := hwithin
      · exact ⟨le_rfl, le_rfl⟩
      · exact (contains_iff.mp hholds).2.2
    obtain hside | hside := hside
    · exact .inl ⟨k, hk, hside, hbounds.2⟩
    · omega
  · obtain ⟨-, -, -, hstop⟩ := contains_iff.mp (Pass.enclosing_some henclosing).2
    have hstop' : cspan.stop ≤ (node_at (inventory statements) enc).span.stop := hstop
    obtain hside | hside := hside
    · exact .inr ⟨enc, henclosing, hside⟩
    · omega

end

/-- A comment is classified at a node that no other one stands between. -/
theorem classify_nearest (h : Placed statements)
    (huncut : ∀ node ∈ inventory statements, Uncut node.span cspan)
    (hspan : cspan.start < cspan.stop) {parsed : Parsed} {position : Position} {i : Nat}
    (hclassify : (Pass.of (inventory statements)).classify parsed cspan = some (position, i)) :
    Nearest (inventory statements) cspan position ((Pass.of (inventory statements)).span i) := by
  obtain ⟨items, hitems, ⟨rfl, hfollowing⟩ | ⟨rfl, hpreceding⟩⟩ | ⟨rfl, henclosing, hnone⟩ :=
    Pass.classify_cases hclassify
  · intro node hnode hbehind
    obtain ⟨m, hm, rfl⟩ := exists_node_at hnode
    obtain ⟨hi, -⟩ := Pass.following_some hfollowing
    obtain ⟨k, hk, hstop, hle⟩ | ⟨enc, henclosing, hle⟩ :=
      h.behind_cases huncut hitems hspan hm hbehind
    · have hbest := pick_best (fun i => by simp) (fun i j k hij hjk => by
        simp only [decide_eq_true_eq] at hij hjk ⊢
        omega) hfollowing hk (decide_eq_true hstop)
      exact (Nat.not_lt.mp (of_decide_eq_false hbest)).trans hle
    · obtain ⟨-, -, -, hstop⟩ := contains_iff.mp (h.item_within hitems hi henclosing)
      have hlt : i < (inventory statements).length := (Pass.classify_beside hclassify).1
      exact ((h.ordered _ (node_at_mem hlt)).trans hstop).trans hle
  · intro node hnode hfront
    obtain ⟨m, hm, rfl⟩ := exists_node_at hnode
    obtain ⟨hi, -⟩ := Pass.preceding_some hpreceding
    obtain ⟨k, hk, hstop, hle⟩ | ⟨enc, henclosing, hle⟩ :=
      h.front_cases huncut hitems hspan hm hfront
    · have hbest := pick_best (fun i => by simp) (fun i j k hij hjk => by
        simp only [decide_eq_true_eq] at hij hjk ⊢
        omega) hpreceding hk (decide_eq_true hstop)
      exact hle.trans (Nat.not_lt.mp (of_decide_eq_false hbest))
    · obtain ⟨-, -, hstart, -⟩ := contains_iff.mp (h.item_within hitems hi henclosing)
      have hlt : i < (inventory statements).length := (Pass.classify_beside hclassify).1
      exact (hle.trans hstart).trans (h.ordered _ (node_at_mem hlt))
  · refine ⟨fun node hnode hcontains => ?_, fun node hnode hbehind => ?_⟩
    · obtain ⟨m, hm, rfl⟩ := exists_node_at hnode
      exact h.around_enclosing hspan henclosing hm hcontains
    · obtain ⟨m, hm, rfl⟩ := exists_node_at hnode
      obtain ⟨k, hk, hstop, -⟩ | ⟨enc, henclosing', hle⟩ :=
        h.behind_cases huncut (.inr ⟨i, henclosing, rfl⟩) hspan hm hbehind
      · exact absurd hstop (of_decide_eq_false (pick_eq_none_iff.mp hnone k hk))
      · obtain rfl := Option.some.inj (henclosing.symm.trans henclosing')
        exact hle

end Placed

/-- Where the nodes of a parse nest as their spans do and siblings have no text in common, a comment
that no node is cut by is found nowhere but at a node that no other one stands between. -/
theorem comments_nearest (parsed : Parsed)
    (hids : ((inventory parsed.statements).map NodeInfo.id).Nodup)
    (h : Placed parsed.statements) {comment : TriviaRange} {position : Position} {span : Span}
    (hspan : comment.span.start < comment.span.stop)
    (huncut : ∀ node ∈ inventory parsed.statements, Uncut node.span comment.span)
    (hfound : comment ∈ (CommentAttachments.compute parsed).position_for position span) :
    Nearest (inventory parsed.statements) comment.span position span := by
  rw [position_for_compute parsed hids] at hfound
  obtain ⟨⟨position', i⟩, hclassify, hat⟩ :=
    (Option.any_eq_true _ _).mp (List.mem_filter.mp hfound).2
  simp only [Bool.and_eq_true, decide_eq_true_eq] at hat
  obtain ⟨rfl, rfl⟩ := hat
  exact h.classify_nearest huncut hspan hclassify

theorem commented_list_inventory :
    inventory commented_list.statements = [⟨0, ⟨0, 19⟩⟩, ⟨1, ⟨7, 8⟩⟩, ⟨2, ⟨18, 19⟩⟩] := by
  decide

theorem commented_list_placed : Placed commented_list.statements := by
  constructor
  · simp [Nests, commented_list, backed, backed_nodes, backed_node, Forest.Nested, contains,
      Span.is_synthetic, Span.SYNTHETIC]
  · simp [commented_list, backed, backed_nodes, backed_node, Forest.Apart, Disjoint,
      Span.is_synthetic, Span.SYNTHETIC]
  · decide

theorem comments_nearest_list :
    Nearest (inventory commented_list.statements) ⟨10, 17⟩ .Trailing ⟨7, 8⟩ := by
  have hfound : (⟨.BlockComment, ⟨10, 17⟩⟩ : TriviaRange) ∈
      (CommentAttachments.compute commented_list).position_for .Trailing ⟨7, 8⟩ := by
    decide
  have huncut : ∀ node ∈ inventory commented_list.statements, Uncut node.span ⟨10, 17⟩ := by
    rw [commented_list_inventory]
    simp [Uncut, contains, Span.is_synthetic, Span.SYNTHETIC]
  exact comments_nearest commented_list (by decide) commented_list_placed (by decide) huncut hfound

end squonk.format.comments
