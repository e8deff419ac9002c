import Mathlib.Algebra.Order.Ring.Nat
import Mathlib.Data.List.Nodup
import Mathlib.Data.List.Perm.Basic

/-!
# Trees of nodes with an id

Every node carries a `Meta` with its id. Some struct expressions of the grammar copy the `Meta`
of a node into the node's body. A fragment (an expression, a query, a statement or a data type)
is rendered by its id: the first one in the tree that carries it.
-/

namespace squonk.parser.node_ids

/-- A non-zero `u32`. -/
structure NodeId where
  value : Nat
  nonzero : value ≠ 0
  fits : value < 2 ^ 32
  deriving DecidableEq

def NodeId.new (value : Nat) : Option NodeId :=
  if h : value ≠ 0 ∧ value < 2 ^ 32 then some ⟨value, h.1, h.2⟩ else none

structure Meta where
  node_id : NodeId
  deriving DecidableEq

inductive Kind
  | Statement | Query | Expr | DataType
  /-- A node that has no meaning on its own. -/
  | Part
  deriving DecidableEq

def Kind.is_fragment : Kind → Bool
  | Part => false
  | _ => true

/-- The struct expressions that put one `Meta` into a node and into its body. -/
inductive Twin
  -- `Expr::StringFunc`
  | SubstringSimilar | Substring | Position | CollationFor | CeilTo | FloorTo | MatchAgainst
  | Overlay | Trim | ConvertUsing
  -- the JSON expressions
  | JsonFunc | JsonObject | JsonArray | JsonAggregate | JsonConstructor | IsJson
  -- statements
  | CreateUser | AlterUserDefaultRole | AlterUserModify | UserRoleList | AlterRoleRename
  | CreateColocationGroup | DropColocationGroup | RefreshMaterializedView
  | CreateExtension | AlterExtension | AlterObjectDepends | AlterSystem | CommentOn
  | CreateTablespace | AlterTablespace | DropTablespace
  | CreateLogfileGroup | AlterLogfileGroup | DropLogfileGroup
  -- table factors
  | JsonTable | XmlTable | OpenJson
  -- parts of other statements; `PartitionOfColumn` is the column of a `PARTITION OF` list
  | RoutineReference | PartitionOfColumn | ExcludeConstraint
  | WithoutRowid | Strict | WithoutOids
  deriving DecidableEq

/-- The kind of the outer node. The body has no meaning on its own. -/
def Twin.kind : Twin → Kind
  | SubstringSimilar | Substring | Position | CollationFor | CeilTo | FloorTo | MatchAgainst
  | Overlay | Trim | ConvertUsing
  | JsonFunc | JsonObject | JsonArray | JsonAggregate | JsonConstructor | IsJson => .Expr
  | CreateUser | AlterUserDefaultRole | AlterUserModify | UserRoleList | AlterRoleRename
  | CreateColocationGroup | DropColocationGroup | RefreshMaterializedView
  | CreateExtension | AlterExtension | AlterObjectDepends | AlterSystem | CommentOn
  | CreateTablespace | AlterTablespace | DropTablespace
  | CreateLogfileGroup | AlterLogfileGroup | DropLogfileGroup => .Statement
  | JsonTable | XmlTable | OpenJson | RoutineReference | PartitionOfColumn | ExcludeConstraint
  | WithoutRowid | Strict | WithoutOids => .Part

inductive Node
  | single (kind : Kind) (node_meta : Meta) (fields : List Node)
  /-- Two nodes: the outer one with the fields `rest` and its body with the fields `body`. -/
  | twin (twin : Twin) (node_meta : Meta) (body rest : List Node)

/-! ## The walk -/

/-- What a walk over the tree comes by. -/
inductive Visit
  /-- A node with an id of its own. -/
  | node (kind : Kind) (node_meta : Meta) (whole : Node)
  /-- The body of a twin. -/
  | body (twin : Twin) (node_meta : Meta)

def Visit.node_meta : Visit → Meta
  | node _ node_meta _ => node_meta
  | body _ node_meta => node_meta

mutual

def Node.walk : Node → List Visit
  | .single kind node_meta fields =>
    .node kind node_meta (.single kind node_meta fields) :: walk fields
  | .twin twin node_meta body rest =>
    .node twin.kind node_meta (.twin twin node_meta body rest) ::
      .body twin node_meta :: (walk body ++ walk rest)

def walk : List Node → List Visit
  | [] => []
  | node :: nodes => node.walk ++ walk nodes

end

/-- The ids of all nodes, with those of the bodies. -/
def ids (nodes : List Node) : List NodeId := (walk nodes).map (·.node_meta.node_id)

def Visit.head? : Visit → Option NodeId
  | node _ node_meta _ => some node_meta.node_id
  | body _ _ => none

def Visit.copy? : Visit → Option NodeId
  | node _ _ _ => none
  | body _ node_meta => some node_meta.node_id

/-- The ids of the nodes but for the bodies of the twins. -/
def heads (nodes : List Node) : List NodeId := (walk nodes).filterMap Visit.head?

/-- The ids of the bodies of the twins. -/
def copies (nodes : List Node) : List NodeId := (walk nodes).filterMap Visit.copy?

def Visit.twin? : Visit → Option Twin
  | node _ _ _ => none
  | body twin _ => some twin

/-- The twins of the tree. -/
def twins (nodes : List Node) : List Twin := (walk nodes).filterMap Visit.twin?

theorem walk_append (first second : List Node) :
    walk (first ++ second) = walk first ++ walk second := by
  induction first with
  | nil => rfl
  | cons node first ih => simp only [List.cons_append, walk, ih, List.append_assoc]

theorem heads_append (first second : List Node) :
    heads (first ++ second) = heads first ++ heads second := by
  simp only [heads, walk_append, List.filterMap_append]

theorem heads_single (kind : Kind) (node_meta : Meta) (fields : List Node) :
    heads [.single kind node_meta fields] = node_meta.node_id :: heads fields := by
  simp [heads, walk, Node.walk, Visit.head?]

theorem heads_twin (twin : Twin) (node_meta : Meta) (body rest : List Node) :
    heads [.twin twin node_meta body rest] =
      node_meta.node_id :: (heads body ++ heads rest) := by
  simp [heads, walk, Node.walk, Visit.head?, List.filterMap_cons]

/-- The ids are those of the nodes and those of the copies. -/
theorem ids_perm (nodes : List Node) : (ids nodes).Perm (heads nodes ++ copies nodes) := by
  unfold ids heads copies
  induction walk nodes with
  | nil => exact .nil
  | cons visit visits ih =>
    cases visit with
    | node kind node_meta node => exact ih.cons _
    | body twin node_meta => exact (ih.cons _).trans List.perm_middle.symm

theorem copies_eq_nil_iff (nodes : List Node) : copies nodes = [] ↔ twins nodes = [] := by
  unfold copies twins
  induction walk nodes with
  | nil => simp
  | cons visit visits ih =>
    cases visit with
    | node kind node_meta node => exact ih
    | body twin node_meta => simp [Visit.copy?, Visit.twin?]

mutual

theorem Node.copied_mem_heads (node : Node) :
    ∀ visit ∈ node.walk, ∀ id, visit.copy? = some id →
      id ∈ node.walk.filterMap Visit.head? := by
  cases node with
  | single kind node_meta fields =>
    intro visit hvisit id hcopy
    rcases List.mem_cons.mp hvisit with rfl | hvisit
    · cases hcopy
    · exact List.mem_cons_of_mem _ (copied_mem_heads fields visit hvisit id hcopy)
  | twin twin node_meta body rest =>
    intro visit hvisit id hcopy
    have hwalk : (Node.twin twin node_meta body rest).walk.filterMap Visit.head? =
        node_meta.node_id :: (heads body ++ heads rest) := by
      simp [heads, Node.walk, Visit.head?, List.filterMap_cons]
    rw [hwalk]
    rcases List.mem_cons.mp hvisit with rfl | hvisit
    · cases hcopy
    rcases List.mem_cons.mp hvisit with rfl | hvisit
    · cases hcopy
      exact List.mem_cons_self
    apply List.mem_cons_of_mem
    rw [List.mem_append]
    rcases List.mem_append.mp hvisit with hvisit | hvisit
    · exact .inl (copied_mem_heads body visit hvisit id hcopy)
    · exact .inr (copied_mem_heads rest visit hvisit id hcopy)

/-- What a copy carries is the id of a node. -/
theorem copied_mem_heads (nodes : List Node) :
    ∀ visit ∈ walk nodes, ∀ id, visit.copy? = some id → id ∈ heads nodes := by
  cases nodes with
  | nil => simp [walk]
  | cons node nodes =>
    intro visit hvisit id hcopy
    have hheads : heads (node :: nodes) = node.walk.filterMap Visit.head? ++ heads nodes := by
      simp only [heads, walk, List.filterMap_append]
    rw [hheads, List.mem_append]
    rcases List.mem_append.mp hvisit with hvisit | hvisit
    · exact .inl (Node.copied_mem_heads node visit hvisit id hcopy)
    · exact .inr (copied_mem_heads nodes visit hvisit id hcopy)

end

/-- Where no two nodes but the bodies of twins have one id, the ids are distinct exactly when
there is no twin. -/
theorem ids_nodup_iff {nodes : List Node} (hheads : (heads nodes).Nodup) :
    (ids nodes).Nodup ↔ twins nodes = [] := by
  rw [(ids_perm nodes).nodup_iff, ← copies_eq_nil_iff]
  constructor
  · intro hnodup
    rw [List.eq_nil_iff_forall_not_mem]
    intro id hid
    obtain ⟨visit, hvisit, hcopy⟩ := List.mem_filterMap.mp hid
    exact (List.nodup_append.mp hnodup).2.2 id (copied_mem_heads nodes visit hvisit id hcopy) id
      hid rfl
  · intro hcopies
    rw [hcopies, List.append_nil]
    exact hheads

/-! ## Fragments -/

def Visit.fragment? : Visit → Option (NodeId × Node)
  | node kind node_meta whole =>
    if kind.is_fragment then some (node_meta.node_id, whole) else none
  | body _ _ => none

/-- The nodes that are rendered by their id, each with its id. -/
def fragments (nodes : List Node) : List (NodeId × Node) := (walk nodes).filterMap Visit.fragment?

theorem fragments_sublist_heads (nodes : List Node) :
    ((fragments nodes).map Prod.fst).Sublist (heads nodes) := by
  unfold fragments heads
  induction walk nodes with
  | nil => exact .slnil
  | cons visit visits ih =>
    cases visit with
    | node kind node_meta node =>
      cases hkind : kind.is_fragment with
      | true => simpa [Visit.fragment?, Visit.head?, hkind] using ih
      | false =>
        simp only [List.filterMap_cons, Visit.fragment?, Visit.head?, hkind]
        exact ih.cons _
    | body twin node_meta => exact ih

structure FragmentError where
  node_id : NodeId
  deriving DecidableEq

section Finder

variable {Text : Type} (render : Node → Text) (target : NodeId)

mutual

/-- Walk the tree until the target is found. -/
def Node.find : Node → Option Text → Option Text
  | _, some rendered => some rendered
  | .single kind node_meta fields, none =>
    if kind.is_fragment ∧ node_meta.node_id = target then
      some (render (.single kind node_meta fields))
    else find fields none
  | .twin twin node_meta body rest, none =>
    if twin.kind.is_fragment ∧ node_meta.node_id = target then
      some (render (.twin twin node_meta body rest))
    else find rest (find body none)

def find : List Node → Option Text → Option Text
  | [], rendered => rendered
  | node :: nodes, rendered => find nodes (node.find rendered)

end

def render_fragment_by_id (statements : List Node) : Except FragmentError Text :=
  match find render target statements none with
  | some text => .ok text
  | none => .error ⟨target⟩

theorem find_some (nodes : List Node) (text : Text) :
    find render target nodes (some text) = some text := by
  induction nodes with
  | nil => rfl
  | cons node nodes ih =>
    rw [find]
    cases node <;> exact ih

/-- The text of the first fragment with the id. -/
def Visits.found (visits : List Visit) : Option Text :=
  ((visits.filterMap Visit.fragment?).find? (·.1 = target)).map fun found => render found.2

theorem Visits.found_append (first second : List Visit) :
    Visits.found render target (first ++ second) =
      (Visits.found render target first).or (Visits.found render target second) := by
  unfold Visits.found
  rw [List.filterMap_append, List.find?_append]
  cases (first.filterMap Visit.fragment?).find? (·.1 = target) <;> rfl

theorem Visits.found_cons (kind : Kind) (node_meta : Meta) (node : Node) (visits : List Visit) :
    Visits.found render target (.node kind node_meta node :: visits) =
      if kind.is_fragment ∧ node_meta.node_id = target then some (render node)
      else Visits.found render target visits := by
  unfold Visits.found
  cases hkind : kind.is_fragment with
  | false => simp [Visit.fragment?, hkind]
  | true =>
    by_cases hid : node_meta.node_id = target
    · simp [Visit.fragment?, hkind, hid]
    · simp [Visit.fragment?, hkind, hid]

theorem find_eq_or_of (nodes : List Node)
    (hnone : find render target nodes none = Visits.found render target (walk nodes))
    (rendered : Option Text) :
    find render target nodes rendered =
      rendered.or (Visits.found render target (walk nodes)) := by
  cases rendered with
  | none => exact hnone
  | some text => exact find_some render target nodes text

mutual

theorem Node.find_eq (node : Node) :
    node.find render target none = Visits.found render target node.walk := by
  cases node with
  | single kind node_meta fields =>
    rw [Node.find, Node.walk, Visits.found_cons, find_eq fields]
  | twin twin node_meta body rest =>
    rw [Node.find, Node.walk, Visits.found_cons, find_eq body,
      find_eq_or_of render target rest (find_eq rest)]
    have hbody : Visits.found render target (.body twin node_meta :: (walk body ++ walk rest)) =
        Visits.found render target (walk body ++ walk rest) := rfl
    rw [hbody, Visits.found_append]

/-- The finder stops at the first fragment of the walk that has the id. -/
theorem find_eq (nodes : List Node) :
    find render target nodes none = Visits.found render target (walk nodes) := by
  cases nodes with
  | nil => rfl
  | cons node nodes =>
    rw [find, find_eq_or_of render target nodes (find_eq nodes), Node.find_eq node, walk,
      Visits.found_append]

end

theorem find?_of_nodup {entries : List (NodeId × Node)}
    (hnodup : (entries.map Prod.fst).Nodup) {node : Node} (hmem : (target, node) ∈ entries) :
    entries.find? (·.1 = target) = some (target, node) := by
  induction entries with
  | nil => cases hmem
  | cons entry entries ih =>
    obtain ⟨hnot, hrest⟩ := List.nodup_cons.mp hnodup
    rcases List.mem_cons.mp hmem with rfl | hmem
    · simp
    · have hne : entry.1 ≠ target := fun heq =>
        hnot (heq ▸ List.mem_map_of_mem (f := Prod.fst) hmem)
      rw [List.find?_cons_of_neg (by simpa using hne)]
      exact ih hrest hmem

/-- Where no two fragments have one id, an id that one of them carries renders that one. -/
theorem render_fragment_by_id_ok {statements : List Node}
    (hnodup : ((fragments statements).map Prod.fst).Nodup) {node : Node}
    (hmem : (target, node) ∈ fragments statements) :
    render_fragment_by_id render target statements = .ok (render node) := by
  have hfound : Visits.found render target (walk statements) = some (render node) := by
    unfold Visits.found
    rw [← fragments, find?_of_nodup target hnodup hmem]
    rfl
  rw [render_fragment_by_id, find_eq, hfound]

/-- An id that no fragment carries is an error. -/
theorem render_fragment_by_id_error {statements : List Node}
    (hnot : target ∉ (fragments statements).map Prod.fst) :
    render_fragment_by_id render target statements = .error ⟨target⟩ := by
  have hfind : (fragments statements).find? (·.1 = target) = none := by
    rw [List.find?_eq_none]
    intro fragment hmem hid
    exact hnot (List.mem_map.mpr ⟨fragment, hmem, by simpa using hid⟩)
  have hfound : Visits.found render target (walk statements) = none := by
    unfold Visits.found
    rw [← fragments, hfind]
    rfl
  rw [render_fragment_by_id, find_eq, hfound]

end Finder

end squonk.parser.node_ids
