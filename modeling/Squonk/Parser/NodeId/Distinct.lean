import Mathlib.Data.List.Count
import Squonk.Parser.NodeId.Build

/-!
# The ids of a parse

The ids that a method holds, in its locals, are those it was called with and those handed out
since, each at most once. So no two nodes of a tree have one id, but for a twin and its body.
-/

open squonk.tokenizer

namespace squonk.parser.node_ids

/-! ## What a local holds -/

def Local.claims : Local → List NodeId
  | node_meta carried => [carried.node_id]
  | tree node => heads [node]
  | moved => []

def claims (locals : List Local) : List NodeId := locals.flatMap Local.claims

@[simp] theorem claims_nil : claims [] = [] := rfl

@[simp] theorem claims_cons (value : Local) (locals : List Local) :
    claims (value :: locals) = value.claims ++ claims locals := rfl

@[simp] theorem claims_append (first second : List Local) :
    claims (first ++ second) = claims first ++ claims second := List.flatMap_append

theorem claims_set_moved {locals : List Local} {var : Var} {value : Local}
    (hvalue : locals[var]? = some value) :
    (claims locals).Perm (value.claims ++ claims (locals.set var .moved)) := by
  induction locals generalizing var with
  | nil => cases hvalue
  | cons first locals ih =>
    cases var with
    | zero =>
      cases hvalue
      exact .refl _
    | succ var =>
      rw [List.getElem?_cons_succ] at hvalue
      rw [List.set_cons_succ, claims_cons, claims_cons]
      calc first.claims ++ claims locals
          |>.Perm (first.claims ++ (value.claims ++ claims (locals.set var .moved))) :=
            (ih hvalue).append_left _
        _ |>.Perm (value.claims ++ (first.claims ++ claims (locals.set var .moved))) := by
            rw [← List.append_assoc, ← List.append_assoc]
            exact List.perm_append_comm.append_right _

theorem take_one_claims {locals rest : List Local} {var : Var} {value : Local}
    (h : take_one locals var = some (value, rest)) :
    (claims locals).Perm (value.claims ++ claims rest) := by
  unfold take_one at h
  split at h
  · cases h
  · cases h
  · next hvalue =>
    obtain ⟨rfl, rfl⟩ := Prod.mk.inj (Option.some.inj h)
    exact claims_set_moved hvalue

theorem take_claims {vars : List Var} {locals values rest : List Local}
    (h : take vars locals = some (values, rest)) :
    (claims locals).Perm (claims values ++ claims rest) := by
  induction vars generalizing locals values rest with
  | nil =>
    obtain ⟨rfl, rfl⟩ := Prod.mk.inj (Option.some.inj h)
    exact .refl _
  | cons var vars ih =>
    simp only [take, Option.bind_eq_bind, Option.bind_eq_some_iff, Prod.exists] at h
    obtain ⟨value, locals', hone, values', rest', hvars, heq⟩ := h
    obtain ⟨rfl, rfl⟩ := Prod.mk.inj (Option.some.inj heq)
    rw [claims_cons, List.append_assoc]
    exact (take_one_claims hone).trans ((ih hvars).append_left _)

theorem trees_claims {values : List Local} {nodes : List Node}
    (h : trees values = some nodes) : claims values = heads nodes := by
  induction values generalizing nodes with
  | nil =>
    cases h
    rfl
  | cons value values ih =>
    cases value with
    | tree node =>
      obtain ⟨nodes', hnodes, rfl⟩ := Option.map_eq_some_iff.mp h
      rw [claims_cons, ih hnodes]
      exact (heads_append [node] nodes').symm
    | node_meta node_meta => cases h
    | moved => cases h

theorem take_meta_claims {locals rest : List Local} {var : Var} {node_meta : Meta}
    (h : take_meta locals var = some (node_meta, rest)) :
    (claims locals).Perm (node_meta.node_id :: claims rest) := by
  unfold take_meta at h
  split at h
  · next hone =>
    obtain ⟨rfl, rfl⟩ := Prod.mk.inj (Option.some.inj h)
    exact take_one_claims hone
  · cases h

theorem take_trees_claims {vars : List Var} {locals rest : List Local} {nodes : List Node}
    (h : take_trees vars locals = some (nodes, rest)) :
    (claims locals).Perm (heads nodes ++ claims rest) := by
  simp only [take_trees, Option.bind_eq_bind, Option.bind_eq_some_iff, Prod.exists] at h
  obtain ⟨values, rest', htake, nodes', htrees, heq⟩ := h
  obtain ⟨rfl, rfl⟩ := Prod.mk.inj (Option.some.inj heq)
  rw [← trees_claims htrees]
  exact take_claims htake

theorem claims_trees (nodes : List Node) : claims (nodes.map .tree) = heads nodes := by
  induction nodes with
  | nil => rfl
  | cons node nodes ih =>
    rw [List.map_cons, claims_cons, ih]
    exact (heads_append [node] nodes).symm

/-! ## What a run hands out -/

/-- Is the id handed out between two states of the counter? -/
def handed_out (next next' : Nat) (id : NodeId) : Nat :=
  if next ≤ id.value ∧ id.value < next' then 1 else 0

/-- Between two states of the counter no id is held more often than before, but for the ids
handed out, which are held once. -/
structure Minted (next next' : Nat) (before after : List NodeId) : Prop where
  le : next ≤ next'
  count (id : NodeId) : after.count id ≤ before.count id + handed_out next next' id

namespace Minted

variable {next next' next'' : Nat} {before after after' : List NodeId}

theorem of_perm (hperm : before.Perm after) : Minted next next before after := by
  refine ⟨Nat.le_refl next, fun id => ?_⟩
  rw [hperm.count_eq]
  omega

theorem refl (next : Nat) (before : List NodeId) : Minted next next before before :=
  of_perm (.refl _)

theorem trans (first : Minted next next' before after) (second : Minted next' next'' after after') :
    Minted next next'' before after' := by
  have hle := first.le
  have hle' := second.le
  refine ⟨by omega, fun id => ?_⟩
  have hfirst := first.count id
  have hsecond := second.count id
  unfold handed_out at *
  split at hfirst <;> split at hsecond <;> split <;> omega

/-- What else is held stays. -/
theorem append (held : Minted next next' before after) (others : List NodeId) :
    Minted next next' (before ++ others) (after ++ others) := by
  refine ⟨held.le, fun id => ?_⟩
  have hcount := held.count id
  simp only [List.count_append]
  omega

theorem drop_left {dropped : List NodeId} (held : Minted next next' before (dropped ++ after)) :
    Minted next next' before after := by
  refine ⟨held.le, fun id => ?_⟩
  have hcount := held.count id
  rw [List.count_append] at hcount
  omega

theorem drop_right {dropped : List NodeId} (held : Minted next next' before (after ++ dropped)) :
    Minted next next' before after := by
  refine ⟨held.le, fun id => ?_⟩
  have hcount := held.count id
  rw [List.count_append] at hcount
  omega

/-- Of what was held before nothing has to be left. -/
theorem dropped (hle : next ≤ next') : Minted next next' before [] :=
  ⟨hle, fun id => by simp⟩

/-- Where nothing was held before, nothing is held twice. -/
theorem nodup (held : Minted next next' [] after) : after.Nodup := by
  rw [List.nodup_iff_count_le_one]
  intro id
  have hcount := held.count id
  unfold handed_out at hcount
  split at hcount <;> simp at hcount <;> omega

end Minted

/-- What a run in a method's frame came to. -/
def Outcome.FrameMinted {Flags α : Type} (frame : Frame Flags) : Outcome (Frame Flags) α → Prop
  | halted => True
  | done _ frame' =>
    Minted frame.state.next_node_id frame'.state.next_node_id (claims frame.locals)
      (claims frame'.locals)

/-- What a call came to. -/
def Outcome.CallMinted {Flags α : Type} (s : Parser Flags) (args : List Local) :
    Outcome (Parser Flags) (α × List Local) → Prop
  | halted => True
  | done (.error _) s' => s.next_node_id ≤ s'.next_node_id
  | done (.ok (_, results)) s' =>
    Minted s.next_node_id s'.next_node_id (claims args) (claims results)

/-- What reading a statement came to. -/
def Outcome.StatementMinted {Flags : Type} (s : Parser Flags) :
    Outcome (Parser Flags) (Option (List Node)) → Prop
  | done (.ok (some nodes)) s' => Minted s.next_node_id s'.next_node_id [] (heads nodes)
  | done _ s' => s.next_node_id ≤ s'.next_node_id
  | halted => True

theorem NodeId.new_value {value : Nat} {id : NodeId} (h : NodeId.new value = some id) :
    id.value = value := by
  unfold NodeId.new at h
  split at h
  · cases h
    rfl
  · cases h

section Steps

variable {Flags α β : Type} (source : List Token) (limit : Nat) (frame : Frame Flags)

theorem bind_minted {x : Outcome (Frame Flags) α} {f : α → Frame Flags → Outcome (Frame Flags) β}
    (hx : x.FrameMinted frame) (hf : ∀ a frame', (f a frame').FrameMinted frame') :
    (x.bind f).FrameMinted frame := by
  cases x with
  | halted => trivial
  | done result frame' =>
    cases result with
    | error e => exact hx
    | ok a =>
      have hrest := hf a frame'
      simp only [Outcome.bind]
      cases hstep : f a frame' with
      | halted => trivial
      | done result' frame'' =>
        rw [hstep] at hrest
        exact hx.trans hrest

theorem make_meta_minted : frame.make_meta.FrameMinted frame := by
  unfold Frame.make_meta
  split
  · trivial
  · next id hid =>
    have hvalue := NodeId.new_value hid
    refine ⟨Nat.le_succ _, fun other => ?_⟩
    simp only [claims_append, claims_cons, claims_nil, Local.claims, List.append_nil,
      List.count_append, List.count_singleton, handed_out]
    by_cases hother : id = other
    · subst hother
      simp [hvalue]
    · simp [hother]

/-- A node that is put together holds what was moved into it. -/
theorem store_minted {locals : List Local} {node : Node}
    (hperm : (claims frame.locals).Perm (heads [node] ++ claims locals)) :
    (frame.store locals node).FrameMinted frame := by
  apply Minted.of_perm
  rw [claims_append]
  apply hperm.trans
  simpa [Local.claims] using List.perm_append_comm

theorem build_minted (kind : Kind) (node_meta : Var) (fields : List Var) :
    (frame.build kind node_meta fields).FrameMinted frame := by
  unfold Frame.build
  split
  · trivial
  · next node_meta' locals hmeta =>
    split
    · trivial
    · next fields' locals' hfields =>
      apply store_minted
      rw [heads_single]
      exact (take_meta_claims hmeta).trans ((take_trees_claims hfields).cons _)

theorem build_twin_minted (twin : Twin) (node_meta : Var) (body rest : List Var) :
    (frame.build_twin twin node_meta body rest).FrameMinted frame := by
  unfold Frame.build_twin
  split
  · trivial
  · next node_meta' locals hmeta =>
    split
    · trivial
    · next body' locals' hbody =>
      split
      · trivial
      · next rest' locals'' hrest =>
        apply store_minted
        rw [heads_twin, List.cons_append, List.append_assoc]
        apply (take_meta_claims hmeta).trans
        apply List.Perm.cons
        exact (take_trees_claims hbody).trans ((take_trees_claims hrest).append_left _)

theorem destructure_minted (tree : Var) : (frame.destructure tree).FrameMinted frame := by
  unfold Frame.destructure
  split
  · next kind node_meta fields locals htree =>
    apply Minted.of_perm
    have hclaims := take_one_claims htree
    rw [Local.claims, heads_single] at hclaims
    rw [claims_append, claims_cons, claims_trees]
    exact hclaims.trans List.perm_append_comm
  · trivial

theorem perform_minted (action : Action Flags) : (perform source action frame).FrameMinted frame := by
  cases action with
  | look test => exact Minted.refl _ _
  | advance =>
    have hnext : (frame.state.advance source).next_node_id = frame.state.next_node_id := by
      unfold Parser.advance
      split <;> rfl
    simp only [perform, Outcome.FrameMinted, hnext]
    exact Minted.refl _ _
  | rewind pos => exact Minted.refl _ _
  | set update => exact Minted.refl _ _
  | make_meta => exact make_meta_minted frame
  | build kind node_meta fields => exact build_minted frame kind node_meta fields
  | build_twin twin node_meta body rest => exact build_twin_minted frame twin node_meta body rest
  | destructure tree => exact destructure_minted frame tree
  | unexpected expected => exact Minted.refl _ _

/-- Arguments are moved into a callee, and its results out of it. -/
theorem call_with_minted (args : List Var)
    {callee : Parser Flags → List Local → Outcome (Parser Flags) (α × List Local)}
    (hcallee : ∀ s args, (callee s args).CallMinted s args) :
    (call_with args callee frame).FrameMinted frame := by
  unfold call_with
  split
  · trivial
  · next args' locals htake =>
    have hclaims : Minted frame.state.next_node_id frame.state.next_node_id
        (claims frame.locals) (claims args' ++ claims locals) :=
      .of_perm (take_claims htake)
    have hrun := hcallee frame.state args'
    split
    · trivial
    · next e s hresult =>
      rw [hresult] at hrun
      have hle : frame.state.next_node_id ≤ s.next_node_id := hrun
      have hnone : Minted frame.state.next_node_id s.next_node_id [] [] := .dropped hle
      exact hclaims.drop_left.trans (hnone.append (claims locals))
    · next a results s hresult =>
      rw [hresult] at hrun
      apply hclaims.trans
      apply (Minted.append hrun (claims locals)).trans
      apply Minted.of_perm
      rw [claims_append]
      exact List.perm_append_comm

theorem enter_minted (entry : Entry Flags) {callee : Frame Flags → Outcome (Frame Flags) α}
    (hcallee : ∀ frame, (callee frame).FrameMinted frame) :
    (enter limit entry callee frame).FrameMinted frame := by
  cases entry with
  | plain => exact hcallee frame
  | guarded =>
    simp only [enter, enter_recursion]
    split
    · exact Minted.refl _ _
    · have hinner := hcallee { frame with
        state := { frame.state with recursion_depth := frame.state.recursion_depth + 1 } }
      split
      · trivial
      · next result frame' hrun =>
        rw [hrun] at hinner
        exact hinner
  | with_flags enter leave =>
    have hinner := hcallee { frame with
      state := { frame.state with flags := enter frame.state.flags } }
    simp only [node_ids.enter, with_flags]
    split
    · trivial
    · next result frame' hrun =>
      rw [hrun] at hinner
      exact hinner
  | attempt =>
    have hinner := hcallee frame
    simp only [enter, attempt]
    split
    · trivial
    · next a frame' hrun =>
      rw [hrun] at hinner
      exact hinner
    · next e frame' hrun =>
      rw [hrun] at hinner
      exact hinner
  | probe =>
    have hinner := hcallee frame
    simp only [enter, probe]
    split
    · trivial
    · next result frame' hrun =>
      rw [hrun] at hinner
      exact hinner

theorem finish_minted {x : Outcome (Frame Flags) (α × List Var)} (hx : x.FrameMinted frame) :
    (finish x).CallMinted frame.state frame.locals := by
  unfold finish
  split
  · trivial
  · exact hx.le
  · next a results frame' =>
    split
    · trivial
    · next results' rest htake =>
      exact (Minted.trans hx (Minted.of_perm (take_claims htake))).drop_right

theorem run_minted {Proc : Type} {Ret : Proc → Type}
    {callee : (p : Proc) → Parser Flags → List Local → Outcome (Parser Flags) (Ret p × List Local)}
    (hcallee : ∀ p s args, (callee p s args).CallMinted s args) (program : Method Flags Ret α)
    (frame : Frame Flags) : (program.run source limit callee frame).FrameMinted frame := by
  induction program generalizing frame with
  | pure a => exact Minted.refl _ _
  | act action k ih =>
    exact bind_minted frame (perform_minted source frame action) fun reply frame' =>
      ih reply frame'
  | call entry p args k ih =>
    apply bind_minted frame
    · apply enter_minted
      intro frame'
      exact call_with_minted frame' args (hcallee p)
    · intro reply frame'
      exact ih reply frame'

end Steps

namespace Grammar

variable (G : Grammar) (source : List Token) (limit frames : Nat)

/-- A method returns no id twice, on any stack. -/
theorem exec_minted (p : G.Proc) (s : Parser G.Flags) (args : List Local) :
    (G.exec source limit frames p s args).CallMinted s args := by
  induction frames generalizing p s args with
  | zero => trivial
  | succ frames ih => exact finish_minted ⟨s, args⟩ (run_minted source limit ih (G.body p) ⟨s, args⟩)

/-! ## Scripts -/

/-- A statement is made of ids that are handed out while it is read. -/
theorem parse_next_statement_minted (s : Parser G.Flags) :
    (G.parse_next_statement source limit frames s).StatementMinted s := by
  unfold parse_next_statement
  have hexec := G.exec_minted source limit frames G.statement
    (G.skip_statement_separators source s) []
  dsimp only
  split
  · exact Nat.le_refl s.next_node_id
  · cases hrun : G.exec source limit frames G.statement
      (G.skip_statement_separators source s) [] with
    | halted => trivial
    | done result s' =>
      rw [hrun] at hexec
      cases result with
      | error e => exact hexec
      | ok returned =>
        obtain ⟨ret, results⟩ := returned
        simp only [Outcome.bind]
        split
        · exact hexec.le
        · cases htrees : node_ids.trees results with
          | none => trivial
          | some nodes =>
            have hminted : Minted s.next_node_id s'.next_node_id [] (claims results) := hexec
            rw [trees_claims htrees] at hminted
            exact hminted

/-- One statement behind the other. -/
theorem heads_minted_append {next next' next'' : Nat} {first second : List Node}
    (hfirst : Minted next next' [] (heads first))
    (hsecond : Minted next' next'' [] (heads second)) :
    Minted next next'' [] (heads (first ++ second)) := by
  rw [heads_append]
  apply hfirst.trans
  apply (hsecond.append (heads first)).trans
  exact Minted.of_perm List.perm_append_comm

theorem statements_minted {turns : Nat} {s : Parser G.Flags} {nodes : List Node}
    {error : Option ParseError}
    (h : G.statements source limit frames turns s = some (nodes, error)) :
    ∃ next, Minted s.next_node_id next [] (heads nodes) := by
  induction turns generalizing s nodes error with
  | zero => cases h
  | succ turns ih =>
    have hstatement := G.parse_next_statement_minted source limit frames s
    unfold statements at h
    split at h
    · cases h
    · cases h
      exact ⟨_, Minted.refl s.next_node_id []⟩
    · next first s' hrun =>
      rw [hrun] at hstatement
      obtain ⟨⟨rest, error'⟩, hrest, heq⟩ := Option.map_eq_some_iff.mp h
      obtain ⟨rfl, rfl⟩ := Prod.mk.inj heq
      obtain ⟨next, hminted⟩ := ih hrest
      exact ⟨next, heads_minted_append hstatement hminted⟩
    · cases h
      exact ⟨_, Minted.refl s.next_node_id []⟩

theorem recover_next_node_id (s : Parser G.Flags) :
    (G.recover_to_statement_boundary source s).2.next_node_id = s.next_node_id := by
  unfold recover_to_statement_boundary
  dsimp only
  split <;> rfl

theorem collect_recovered_minted {turns : Nat} {s : Parser G.Flags} {nodes : List Node}
    {errors : List ParseError}
    (h : G.collect_recovered source limit frames turns s = some (nodes, errors)) :
    ∃ next, Minted s.next_node_id next [] (heads nodes) := by
  induction turns generalizing s nodes errors with
  | zero => cases h
  | succ turns ih =>
    have hstatement := G.parse_next_statement_minted source limit frames s
    unfold collect_recovered at h
    split at h
    · cases h
    · cases h
      exact ⟨_, Minted.refl s.next_node_id []⟩
    · next first s' hrun =>
      rw [hrun] at hstatement
      obtain ⟨⟨rest, errors'⟩, hrest, heq⟩ := Option.map_eq_some_iff.mp h
      obtain ⟨rfl, rfl⟩ := Prod.mk.inj heq
      obtain ⟨next, hminted⟩ := ih hrest
      exact ⟨next, heads_minted_append hstatement hminted⟩
    · next e s' hrun =>
      rw [hrun] at hstatement
      have hrecover := G.recover_next_node_id source s'
      split at h
      · next s'' hboundary =>
        rw [hboundary] at hrecover
        obtain ⟨⟨rest, errors'⟩, hrest, heq⟩ := Option.map_eq_some_iff.mp h
        obtain ⟨rfl, rfl⟩ := Prod.mk.inj heq
        obtain ⟨next, hminted⟩ := ih hrest
        have hle : s.next_node_id ≤ s''.next_node_id :=
          Nat.le_trans hstatement (Nat.le_of_eq hrecover.symm)
        exact ⟨next, (Minted.dropped hle).trans hminted⟩
      · cases h
        exact ⟨_, Minted.refl s.next_node_id []⟩

/-- However a script is read, no two nodes of its trees have one id, but for the bodies of the
twins. -/
theorem trees_heads_nodup {entry_point : EntryPoint} {nodes : List Node}
    (h : G.trees entry_point source limit frames = some nodes) : (heads nodes).Nodup := by
  unfold trees at h
  cases entry_point with
  | statements =>
    obtain ⟨⟨nodes', error⟩, hrun, rfl⟩ := Option.map_eq_some_iff.mp h
    obtain ⟨next, hminted⟩ := G.statements_minted source limit frames hrun
    exact hminted.nodup
  | parse_with =>
    dsimp only at h
    split at h
    · next nodes' hrun =>
      cases h
      obtain ⟨next, hminted⟩ := G.statements_minted source limit frames hrun
      exact hminted.nodup
    · cases h
  | parse_recovering =>
    obtain ⟨⟨nodes', errors⟩, hrun, rfl⟩ := Option.map_eq_some_iff.mp h
    obtain ⟨next, hminted⟩ := G.collect_recovered_minted source limit frames hrun
    exact hminted.nodup

end Grammar

/-! ## Ids identify nodes -/

/-- Rendering by an id finds the one fragment that carries it, and nothing else. -/
structure Rendered (nodes : List Node) : Prop where
  carried {Text : Type} (render : Node → Text) {id : NodeId} {node : Node}
    (hmem : (id, node) ∈ fragments nodes) :
    render_fragment_by_id render id nodes = .ok (render node)
  absent {Text : Type} (render : Node → Text) {id : NodeId}
    (hnot : ∀ node, (id, node) ∉ fragments nodes) :
    render_fragment_by_id render id nodes = .error ⟨id⟩

/-- The ids of all nodes are non-zero and distinct, and find their fragments. -/
structure Identified (nodes : List Node) : Prop where
  nonzero : ∀ id ∈ ids nodes, id.value ≠ 0
  distinct : (ids nodes).Nodup
  rendered : Rendered nodes

theorem rendered_of_heads_nodup {nodes : List Node} (hheads : (heads nodes).Nodup) :
    Rendered nodes := by
  have hnodup := hheads.sublist (fragments_sublist_heads nodes)
  constructor
  · intro Text render id node hmem
    exact render_fragment_by_id_ok render id hnodup hmem
  · intro Text render id hnot
    apply render_fragment_by_id_error
    intro hmem
    obtain ⟨⟨id', node⟩, hnode, rfl⟩ := List.mem_map.mp hmem
    exact hnot node hnode

end squonk.parser.node_ids
