import Squonk.Serde.Compatible

/-!
# The depth limit of deserialization

A deserializer that is wrapped with a budget wraps in turn the visitors it is given, their accesses
and the seeds of these, so that what a client asks for inside a value is asked with what the value
has left of the budget. The wrappers around a format are here those around the client that asks
it: a wrapped visitor is the visitor that the format is given.
-/

open serde

namespace squonk.serde_depth

def DEFAULT_DESERIALIZE_DEPTH : Nat := 128

def too_deep : Error where
  message := "deserialization exceeded the configured recursion-depth limit"
  notes := []

/-- A seed, a visitor or a reader: the client's own, or wrapped with a budget. -/
inductive Wrapped (α : Type)
  | plain (inner : α)
  | depth (inner : α) (budget : Nat)
  deriving DecidableEq

variable {Val : Type}

/-! ## The deserializer -/

/-- The visitor that the wrapped deserializer is given at an entry point of a deserializer with
`budget`, and whether it is called at all. -/
def DepthLimited.visitor {Visitor : Type} (budget : Nat) (visitor : Visitor) :
    Request → Except Error (Wrapped Visitor)
  | .bool
  | .i8 | .i16 | .i32 | .i64 | .i128
  | .u8 | .u16 | .u32 | .u64 | .u128
  | .f32 | .f64
  | .char | .str | .string
  | .bytes | .byte_buf
  | .unit | .identifier
  | .unit_struct _ => .ok (.plain visitor)
  | .option | .newtype_struct _ => .ok (.depth visitor budget)
  | .seq | .tuple _ | .tuple_struct _ _ | .map | .struct _ _ | .enum _ _ | .any | .ignored_any =>
    match budget with
    | 0 => .error too_deep
    | budget + 1 => .ok (.depth visitor budget)

/-- What a seed does with a deserializer that is wrapped with `budget`. -/
def DepthLimited.deserialize {Visitor : Type} (budget : Nat) (program : Program Visitor Val) :
    Program (Wrapped Visitor) Val :=
  fun readable =>
    match program readable with
    | .error e => .error e
    | .ok asked =>
      (DepthLimited.visitor budget asked.visitor asked.request).map fun visitor =>
        { request := asked.request, visitor, finish := asked.finish }

/-! ## Visitors and accesses -/

/-- The method of the inner visitor that a method of the wrapper calls. The wrapper has none of its
own for the narrow numbers and for characters, and takes those that every visitor comes with. -/
def DepthVisitor.shown : Scalar → Scalar
  | .i8 v => .i64 v.toInt64
  | .i16 v => .i64 v.toInt64
  | .i32 v => .i64 v.toInt64
  | .u8 v => .u64 v.toUInt64
  | .u16 v => .u64 v.toUInt64
  | .u32 v => .u64 v.toUInt64
  | .f32 v => .f64 v.toFloat
  | .char v => .str v.toString
  | value => value

def DepthVisitor {Seed Visitor SeqReader MapReader : Type}
    (inner : VisitorImpl Seed Visitor SeqReader MapReader Val) (budget : Nat) :
    VisitorImpl (Wrapped Seed) (Wrapped Visitor) (Wrapped SeqReader) (Wrapped MapReader) Val where
  expecting := inner.expecting
  visit_scalar value := inner.visit_scalar (DepthVisitor.shown value)
  visit_some := DepthLimited.deserialize budget inner.visit_some
  visit_newtype_struct := DepthLimited.deserialize budget inner.visit_newtype_struct
  visit_seq := .depth inner.visit_seq budget
  visit_map := .depth inner.visit_map budget
  visit_enum := inner.visit_enum.map (VariantSeed.map (.depth · budget) (.depth · budget))

/-- The steps of a visitor over a wrapped access of a sequence. -/
def DepthSeqAccess {Seed Reader : Type} (step : SeqStep Seed Reader Val) (budget : Nat) :
    SeqStep (Wrapped Seed) (Wrapped Reader) Val :=
  match step with
  | .return result => .return result
  | .size_hint next => .size_hint fun hint => .depth (next hint) budget
  | .next_element_seed seed next =>
    .next_element_seed (.depth seed budget) fun value => .depth (next value) budget

/-- The steps of a visitor over a wrapped access of a map. -/
def DepthMapAccess {Seed Reader : Type} (step : MapStep Seed Reader Val) (budget : Nat) :
    MapStep (Wrapped Seed) (Wrapped Reader) Val :=
  match step with
  | .return result => .return result
  | .size_hint next => .size_hint fun hint => .depth (next hint) budget
  | .next_key_seed seed next =>
    .next_key_seed (.depth seed budget) fun value => .depth (next value) budget
  | .next_value_seed seed next =>
    .next_value_seed (.depth seed budget) fun value => .depth (next value) budget

/-- The client of a wrapped deserializer, as the wrapped format sees it. -/
def limited (C : Client Val) : Client Val where
  Seed := Wrapped C.Seed
  Visitor := Wrapped C.Visitor
  SeqReader := Wrapped C.SeqReader
  MapReader := Wrapped C.MapReader
  seed
    | .plain seed => (C.seed seed).map .plain
    | .depth seed budget => DepthLimited.deserialize budget (C.seed seed)
  visitor
    | .plain visitor =>
      let impl := C.visitor visitor
      { expecting := impl.expecting
        visit_scalar := impl.visit_scalar
        visit_some := impl.visit_some.map .plain
        visit_newtype_struct := impl.visit_newtype_struct.map .plain
        visit_seq := .plain impl.visit_seq
        visit_map := .plain impl.visit_map
        visit_enum := impl.visit_enum.map (VariantSeed.map .plain .plain) }
    | .depth visitor budget => DepthVisitor (C.visitor visitor) budget
  seq
    | .plain reader => (C.seq reader).map .plain .plain
    | .depth reader budget => DepthSeqAccess (C.seq reader) budget
  map
    | .plain reader => (C.map reader).map .plain .plain
    | .depth reader budget => DepthMapAccess (C.map reader) budget

/-- Deserialize `seed`, with at most `max_depth` levels of compound values inside each other. -/
def from_deserializer {S : Type} (F : Format S) (C : Client Val) (seed : C.Seed)
    (deserializer : F.Deserializer) (max_depth fuel : Nat) : Run S Val :=
  exec F (limited C) fuel (.deserialize (DepthLimited.deserialize max_depth (C.seed seed))
    deserializer)

/-- Deserialize `seed` without a limit. -/
def deserialize {S : Type} (F : Format S) (C : Client Val) (seed : C.Seed)
    (deserializer : F.Deserializer) (fuel : Nat) : Run S Val :=
  exec F C fuel (.deserialize (C.seed seed) deserializer)

end squonk.serde_depth
