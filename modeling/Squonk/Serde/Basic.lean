import Mathlib.Order.Lattice
import Mathlib.Order.Defs.LinearOrder

/-!
# Deserialization

A deserialization has two sides. A format reads its input and shows what it has read to a visitor;
a client asks the format for values, at one of the entry points of a deserializer or of an access,
and makes its own value of what its visitors are shown. Both sides are states and what each of
them does next, so neither has to end. An error ends the run.
-/

namespace serde

/-- An error: its message, and what a format notes on it on its way out. -/
structure Error where
  message : String
  notes : List String
  deriving DecidableEq

/-- The entry points of a deserializer, with their arguments. -/
inductive Request
  | bool
  | i8 | i16 | i32 | i64 | i128
  | u8 | u16 | u32 | u64 | u128
  | f32 | f64
  | char | str | string
  | bytes | byte_buf
  | unit | identifier
  | unit_struct (name : String)
  | option
  | newtype_struct (name : String)
  | seq
  | tuple (len : Nat)
  | tuple_struct (name : String) (len : Nat)
  | map
  | struct (name : String) (fields : List String)
  | enum (name : String) (variants : List String)
  | any
  | ignored_any
  deriving DecidableEq

/-- What a visitor can be shown that holds no other value. -/
inductive Scalar
  | bool (v : Bool)
  | i8 (v : Int8) | i16 (v : Int16) | i32 (v : Int32) | i64 (v : Int64) | i128 (v : BitVec 128)
  | u8 (v : UInt8) | u16 (v : UInt16) | u32 (v : UInt32) | u64 (v : UInt64) | u128 (v : BitVec 128)
  | f32 (v : Float32) | f64 (v : Float)
  | char (v : Char)
  | str (v : String) | borrowed_str (v : String) | string (v : String)
  | bytes (v : List UInt8) | borrowed_bytes (v : List UInt8) | byte_buf (v : List UInt8)
  | none
  | unit

/-! ## Clients -/

section Clients

variable (Seed Visitor Reader Val : Type)

/-- The one call that a seed makes of its deserializer, and what it makes of the value. -/
structure Asked where
  request : Request
  visitor : Visitor
  finish : Val → Except Error Val

/-- What a seed does with a deserializer, told whether the format is human readable. -/
abbrev Program := Bool → Except Error (Asked Visitor Val)

/-- The next step of a visitor that reads a sequence. -/
inductive SeqStep
  | return (result : Except Error Val)
  | size_hint (next : Option Nat → Reader)
  | next_element_seed (seed : Seed) (next : Option Val → Reader)

/-- The next step of a visitor that reads a map. -/
inductive MapStep
  | return (result : Except Error Val)
  | size_hint (next : Option Nat → Reader)
  | next_key_seed (seed : Seed) (next : Option Val → Reader)
  | next_value_seed (seed : Seed) (next : Val → Reader)

/-- The call that takes the content of a variant. -/
inductive VariantCall
  | unit_variant (result : Except Error Val)
  | newtype_variant_seed (seed : Seed) (finish : Val → Except Error Val)
  | tuple_variant (len : Nat) (visitor : Visitor) (finish : Val → Except Error Val)
  | struct_variant (fields : List String) (visitor : Visitor) (finish : Val → Except Error Val)

/-- What a visitor does with an enum: read its variant, and from it choose how to go on. -/
structure VariantSeed where
  seed : Seed
  content : Val → Except Error (VariantCall Seed Visitor Val)

end Clients

/-- The methods of a visitor. -/
structure VisitorImpl (Seed Visitor SeqReader MapReader Val : Type) where
  expecting : String
  visit_scalar : Scalar → Except Error Val
  visit_some : Program Visitor Val
  visit_newtype_struct : Program Visitor Val
  visit_seq : SeqReader
  visit_map : MapReader
  visit_enum : Except Error (VariantSeed Seed Visitor Val)

/-- The seeds and visitors of a deserialization, and the readers of its visitors. -/
structure Client (Val : Type) where
  Seed : Type
  Visitor : Type
  SeqReader : Type
  MapReader : Type
  seed : Seed → Program Visitor Val
  visitor : Visitor → VisitorImpl Seed Visitor SeqReader MapReader Val
  seq : SeqReader → SeqStep Seed SeqReader Val
  map : MapReader → MapStep Seed MapReader Val

/-! ## Formats -/

/-- What a visitor is shown. -/
inductive Visit (Deserializer SeqAccess MapAccess EnumAccess : Type)
  | scalar (value : Scalar)
  | some (content : Deserializer)
  | newtype_struct (content : Deserializer)
  | seq (access : SeqAccess)
  | map (access : MapAccess)
  | enum (access : EnumAccess)

/-- What a format hands out, with the input it goes on with, what it still reads when the client
is through with it, and what it notes on an error of the client. -/
structure Handed (S α : Type) where
  value : α
  state : S
  close : S → Except Error S
  note : Error → List String

/-- A format over inputs `S`. An access keeps what it has read of its value in the input. -/
structure Format (S : Type) where
  Deserializer : Type
  SeqAccess : Type
  MapAccess : Type
  EnumAccess : Type
  VariantAccess : Type
  is_human_readable : Deserializer → Bool
  /-- A deserializer is told what the visitor expects, for the texts of its errors. -/
  deserialize : Deserializer → Request → String → S →
    Except Error (Handed S (Visit Deserializer SeqAccess MapAccess EnumAccess))
  seq_size_hint : SeqAccess → S → Option Nat
  next_element : SeqAccess → S → Except Error (Handed S (Option Deserializer))
  map_size_hint : MapAccess → S → Option Nat
  next_key : MapAccess → S → Except Error (Handed S (Option Deserializer))
  next_value : MapAccess → S → Except Error (Handed S Deserializer)
  variant : EnumAccess → S → Except Error (Handed S (Deserializer × VariantAccess))
  unit_variant : VariantAccess → S → Except Error S
  newtype_variant : VariantAccess → S → Except Error (Handed S Deserializer)
  tuple_variant : VariantAccess → Nat → String → S →
    Except Error (Handed S (Visit Deserializer SeqAccess MapAccess EnumAccess))
  struct_variant : VariantAccess → List String → String → S →
    Except Error (Handed S (Visit Deserializer SeqAccess MapAccess EnumAccess))

/-! ## Runs -/

/-- A value that was asked for, with those asked for while it was read. -/
inductive Read
  | mk (request : Request) (reads : List Read)

/-- A run over the input: it comes to a value or to an error, with what was asked for on the way,
or it does not end in the steps it was given. -/
abbrev Run (S α : Type) := S → Option (Except Error (α × S) × List Read)

namespace Run

variable {S α β : Type}

def lift (result : Except Error α) : Run S α := fun s => some (result.map (·, s), [])

def fail (e : Error) : Run S α := lift (.error e)

def bind (x : Run S α) (f : α → Run S β) : Run S β := fun s =>
  match x s with
  | none => none
  | some (.error e, reads) => some (.error e, reads)
  | some (.ok (a, s), reads) => (f a s).map fun (result, rest) => (result, reads ++ rest)

/-- Go on by what is found in the input. -/
def ask (look : S → β) (f : β → Run S α) : Run S α := fun s => f (look s) s

/-- Go on with the input, if it does not fail. -/
def pass (step : S → Except Error S) (x : Run S α) : Run S α := fun s =>
  match step s with
  | .error e => fail e s
  | .ok s => x s

/-- Use what a format hands out, and close it. -/
def hand (out : S → Except Error (Handed S α)) (use : α → Run S β) : Run S β := fun s =>
  match out s with
  | .error e => some (.error e, [])
  | .ok handed =>
    match use handed.value handed.state with
    | none => none
    | some (.error e, reads) => some (.error { e with notes := handed.note e }, reads)
    | some (.ok (b, s), reads) => some ((handed.close s).map (b, ·), reads)

/-- What is read for a request. -/
def inside (request : Request) (x : Run S α) : Run S α := fun s =>
  (x s).map fun (result, reads) => (result, [.mk request reads])

end Run

section Exec

variable {S Val : Type} (F : Format S) (C : Client Val)

/-- What remains to be done in a run. -/
inductive Call
  | deserialize (program : Program C.Visitor Val) (deserializer : F.Deserializer)
  | visit (visitor : C.Visitor)
    (shown : Visit F.Deserializer F.SeqAccess F.MapAccess F.EnumAccess)
  | seq (reader : C.SeqReader) (access : F.SeqAccess)
  | map (reader : C.MapReader) (access : F.MapAccess)

variable (callee : Call F C → Run S Val)

def run_asked (d : F.Deserializer) (asked : Asked C.Visitor Val) : Run S Val :=
  (Run.inside asked.request
    (Run.hand (F.deserialize d asked.request (C.visitor asked.visitor).expecting) fun shown =>
      callee (.visit asked.visitor shown))).bind fun value => .lift (asked.finish value)

def run_seed (seed : C.Seed) (d : F.Deserializer) : Run S Val :=
  callee (.deserialize (C.seed seed) d)

/-- Run a seed, where the format has a value for it. -/
def run_seed? (seed : C.Seed) : Option F.Deserializer → Run S (Option Val)
  | none => .lift (.ok none)
  | some d => (run_seed F C callee seed d).bind fun value => .lift (.ok (some value))

def run_seq (access : F.SeqAccess) : SeqStep C.Seed C.SeqReader Val → Run S Val
  | .return result => .lift result
  | .size_hint next => .ask (F.seq_size_hint access) fun hint => callee (.seq (next hint) access)
  | .next_element_seed seed next =>
    (Run.hand (F.next_element access) (run_seed? F C callee seed)).bind fun value =>
      callee (.seq (next value) access)

def run_map (access : F.MapAccess) : MapStep C.Seed C.MapReader Val → Run S Val
  | .return result => .lift result
  | .size_hint next => .ask (F.map_size_hint access) fun hint => callee (.map (next hint) access)
  | .next_key_seed seed next =>
    (Run.hand (F.next_key access) (run_seed? F C callee seed)).bind fun value =>
      callee (.map (next value) access)
  | .next_value_seed seed next =>
    (Run.hand (F.next_value access) (run_seed F C callee seed)).bind fun value =>
      callee (.map (next value) access)

def run_variant (access : F.VariantAccess) : VariantCall C.Seed C.Visitor Val → Run S Val
  | .unit_variant result => .pass (F.unit_variant access) (.lift result)
  | .newtype_variant_seed seed finish =>
    (Run.hand (F.newtype_variant access) (run_seed F C callee seed)).bind fun value =>
      .lift (finish value)
  | .tuple_variant len visitor finish =>
    (Run.hand (F.tuple_variant access len (C.visitor visitor).expecting) fun shown =>
      callee (.visit visitor shown)).bind fun value => .lift (finish value)
  | .struct_variant fields visitor finish =>
    (Run.hand (F.struct_variant access fields (C.visitor visitor).expecting) fun shown =>
      callee (.visit visitor shown)).bind fun value => .lift (finish value)

/-- The variant's name is read before its content. -/
def run_enum (access : F.EnumAccess) (variant : VariantSeed C.Seed C.Visitor Val) : Run S Val :=
  (Run.hand (F.variant access) fun (d, content) =>
    (run_seed F C callee variant.seed d).bind fun value => .lift (.ok (value, content))).bind
  fun (value, content) =>
    match variant.content value with
    | .error e => .fail e
    | .ok call => run_variant F C callee content call

def run_visit (impl : VisitorImpl C.Seed C.Visitor C.SeqReader C.MapReader Val) :
    Visit F.Deserializer F.SeqAccess F.MapAccess F.EnumAccess → Run S Val
  | .scalar value => .lift (impl.visit_scalar value)
  | .some d => callee (.deserialize impl.visit_some d)
  | .newtype_struct d => callee (.deserialize impl.visit_newtype_struct d)
  | .seq access => callee (.seq impl.visit_seq access)
  | .map access => callee (.map impl.visit_map access)
  | .enum access =>
    match impl.visit_enum with
    | .error e => .fail e
    | .ok variant => run_enum F C callee access variant

/-- One step of a run, where `callee` does the calls it makes. -/
def run_call : Call F C → Run S Val
  | .deserialize program d =>
    match program (F.is_human_readable d) with
    | .error e => .fail e
    | .ok asked => run_asked F C callee d asked
  | .visit visitor shown => run_visit F C callee (C.visitor visitor) shown
  | .seq reader access => run_seq F C callee access (C.seq reader)
  | .map reader access => run_map F C callee access (C.map reader)

/-- Run a call with at most `fuel` calls inside each other. -/
def exec : Nat → Call F C → Run S Val
  | 0, _ => fun _ => none
  | fuel + 1, call => run_call F C (exec fuel) call

end Exec

end serde
