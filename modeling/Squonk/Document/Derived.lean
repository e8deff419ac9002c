import Squonk.Document.Parsed

/-!
# A derived writer and reader

A struct is the compound of its fields, an enumeration the number of its variant.
-/

open squonk.interner squonk.serde_depth

namespace squonk.document

def serialize_symbol : Option Symbol → Value
  | none => .unit
  | some sym => .wrapped (.number sym.raw)

def deserialize_symbol : Value → Option (Option Symbol)
  | .unit => some none
  | .wrapped (.number raw) => if h : 0 < raw then some (some ⟨raw, h⟩) else none
  | _ => none

theorem deserialize_serialize_symbol (symbol : Option Symbol) :
    deserialize_symbol (serialize_symbol symbol) = some symbol := by
  cases symbol with
  | none => rfl
  | some sym => rw [serialize_symbol, deserialize_symbol, dif_pos sym.pos]

def BareKind.number : BareKind → Nat
  | .ParameterKind => 0
  | .ExcludeOperator => 1
  | .Other => 2

def BareKind.of_number : Nat → BareKind
  | 0 => .ParameterKind
  | 1 => .ExcludeOperator
  | _ => .Other

namespace Node

mutual

def serialize : Node → Value
  | spanned kind info symbol _ children =>
    .compound [.number kind.ctorIdx,
      .compound [.number info.span.start, .number info.span.stop], .number info.node_id,
      serialize_symbol symbol, .compound (serializeAll children)]
  | bare kind symbol _ children =>
    .compound [.number kind.number, serialize_symbol symbol, .compound (serializeAll children)]

def serializeAll : List Node → List Value
  | [] => []
  | node :: rest => node.serialize :: serializeAll rest

end

def build_spanned (kind : NodeKind) (info : Meta) (symbol : Option Symbol)
    (children : List Node) : Option Node :=
  if h : symbol.isSome → kind.bears_symbol then some (spanned kind info symbol h children) else none

def build_bare (kind : BareKind) (symbol : Option Symbol) (children : List Node) : Option Node :=
  if h : symbol.isSome → kind.bears_symbol then some (bare kind symbol h children) else none

mutual

def deserialize : Value → Option Node
  | .compound [.number kind, .compound [.number start, .number stop], .number node_id, symbol,
      .compound children] =>
    match deserialize_symbol symbol, deserializeAll children with
    | some symbol, some children =>
      build_spanned (NodeKind.ofNat kind) ⟨⟨start, stop⟩, node_id⟩ symbol children
    | _, _ => none
  | .compound [.number kind, symbol, .compound children] =>
    match deserialize_symbol symbol, deserializeAll children with
    | some symbol, some children => build_bare (BareKind.of_number kind) symbol children
    | _, _ => none
  | _ => none

def deserializeAll : List Value → Option (List Node)
  | [] => some []
  | value :: rest =>
    match deserialize value, deserializeAll rest with
    | some node, some rest => some (node :: rest)
    | _, _ => none

end

mutual

theorem deserialize_serialize (node : Node) : deserialize node.serialize = some node := by
  match node with
  | spanned kind info symbol typed children =>
    have hkind := NodeKind.ofNat_ctorIdx kind
    rw [serialize, deserialize, deserialize_serialize_symbol, deserializeAll_serializeAll children]
    simp only [hkind, build_spanned, dif_pos typed]
  | bare kind symbol typed children =>
    have hkind : BareKind.of_number kind.number = kind := by cases kind <;> rfl
    rw [serialize, deserialize, deserialize_serialize_symbol, deserializeAll_serializeAll children]
    simp only [hkind, build_bare, dif_pos typed]

theorem deserializeAll_serializeAll (trees : List Node) :
    deserializeAll (serializeAll trees) = some trees := by
  match trees with
  | [] => rw [serializeAll, deserializeAll]
  | node :: rest =>
    rw [serializeAll, deserializeAll, deserialize_serialize node, deserializeAll_serializeAll rest]

end

end Node

/-- The writer and reader that lay every node out as the compound of its fields. -/
def derived : Serde where
  serialize := Node.serialize
  deserialize := Node.deserialize
  deserialize_serialize := Node.deserialize_serialize

end squonk.document
