import Squonk.SerdeDepth.Exact

/-!
# The limit on documents

What is left of the budget at every entry point, the exact limit of any deserialization, and what
it does on documents that tell their own shape.
-/

open serde

namespace squonk.serde_depth

variable {S Val : Type}

/-! ## What is left of the budget -/

def Wrapped.budget {α : Type} : Wrapped α → Option Nat
  | .plain _ => none
  | .depth _ budget => some budget

/-- The budget inside of a value that is asked for with `budget`, where there is one. -/
def inside_budget (budget : Nat) (request : Request) : Option Nat :=
  match level request with
  | .terminal => none
  | .wrapper => some budget
  | .compound => some (budget - 1)

section Carried

variable {Seed Visitor Reader : Type}

def ProgramCarries (budget : Nat) (program : Program (Wrapped Visitor) Val) : Prop :=
  ∀ readable asked, program readable = .ok asked →
    asked.visitor.budget = inside_budget budget asked.request

/-- The seed of the step and every way to go on have the budget. -/
def SeqCarries (budget : Nat) : SeqStep (Wrapped Seed) (Wrapped Reader) Val → Prop
  | .return _ => True
  | .size_hint next => ∀ hint, (next hint).budget = some budget
  | .next_element_seed seed next =>
    seed.budget = some budget ∧ ∀ value, (next value).budget = some budget

def MapCarries (budget : Nat) : MapStep (Wrapped Seed) (Wrapped Reader) Val → Prop
  | .return _ => True
  | .size_hint next => ∀ hint, (next hint).budget = some budget
  | .next_key_seed seed next =>
    seed.budget = some budget ∧ ∀ value, (next value).budget = some budget
  | .next_value_seed seed next =>
    seed.budget = some budget ∧ ∀ value, (next value).budget = some budget

def VariantCarries (budget : Nat) : VariantCall (Wrapped Seed) (Wrapped Visitor) Val → Prop
  | .unit_variant _ => True
  | .newtype_variant_seed seed _ => seed.budget = some budget
  | .tuple_variant _ visitor _ | .struct_variant _ visitor _ => visitor.budget = some budget

end Carried

/-- At every entry point, whatever was read before: the values of one access are asked for with one
budget, and the budget of a value's own values depends on how the value is asked for only. -/
structure Siblings (C : Client Val) (budget : Nat) : Prop where
  deserializer : ∀ program : Program C.Visitor Val,
    ProgramCarries budget (DepthLimited.deserialize budget program)
  seed : ∀ seed, ProgramCarries budget ((limited C).seed (.depth seed budget))
  visit_some : ∀ visitor,
    ProgramCarries budget ((limited C).visitor (.depth visitor budget)).visit_some
  visit_newtype_struct : ∀ visitor,
    ProgramCarries budget ((limited C).visitor (.depth visitor budget)).visit_newtype_struct
  visit_seq : ∀ visitor,
    Wrapped.budget ((limited C).visitor (.depth visitor budget)).visit_seq = some budget
  visit_map : ∀ visitor,
    Wrapped.budget ((limited C).visitor (.depth visitor budget)).visit_map = some budget
  visit_enum : ∀ visitor variant,
    ((limited C).visitor (.depth visitor budget)).visit_enum = .ok variant →
      Wrapped.budget variant.seed = some budget ∧
        ∀ value call, variant.content value = .ok call → VariantCarries budget call
  seq : ∀ reader, SeqCarries budget ((limited C).seq (.depth reader budget))
  map : ∀ reader, MapCarries budget ((limited C).map (.depth reader budget))

theorem map_eq_ok {α β : Type} {x : Except Error α} {f : α → β} {b : β} (h : x.map f = .ok b) :
    ∃ a, x = .ok a ∧ f a = b := by
  cases x with
  | error e => cases h
  | ok a => exact ⟨a, rfl, Except.ok.inj h⟩

theorem budget_visitor {Visitor : Type} {budget : Nat} {visitor : Visitor} {request : Request}
    {wrapped : Wrapped Visitor} (h : DepthLimited.visitor budget visitor request = .ok wrapped) :
    wrapped.budget = inside_budget budget request := by
  rw [inside_budget]
  cases hlevel : level request with
  | terminal =>
    rw [visitor_terminal budget visitor hlevel] at h
    cases h
    rfl
  | wrapper =>
    rw [visitor_wrapper budget visitor hlevel] at h
    cases h
    rfl
  | compound =>
    obtain ⟨hspent, hleft⟩ := visitor_compound visitor hlevel
    cases budget with
    | zero =>
      rw [hspent] at h
      cases h
    | succ budget =>
      rw [hleft] at h
      cases h
      rfl

theorem program_carries {Visitor : Type} (budget : Nat) (program : Program Visitor Val) :
    ProgramCarries budget (DepthLimited.deserialize budget program) := by
  intro readable asked hasked
  cases hprogram : program readable with
  | error e =>
    rw [DepthLimited.deserialize, hprogram] at hasked
    cases hasked
  | ok plain =>
    rw [DepthLimited.deserialize, hprogram] at hasked
    obtain ⟨wrapped, hwrapped, rfl⟩ := map_eq_ok hasked
    exact budget_visitor hwrapped

theorem siblings (C : Client Val) (budget : Nat) : Siblings C budget where
  deserializer := program_carries budget
  seed seed := program_carries budget (C.seed seed)
  visit_some visitor := program_carries budget (C.visitor visitor).visit_some
  visit_newtype_struct visitor := program_carries budget (C.visitor visitor).visit_newtype_struct
  visit_seq _ := rfl
  visit_map _ := rfl
  visit_enum := by
    intro visitor variant hvariant
    obtain ⟨plain, -, rfl⟩ := map_eq_ok hvariant
    refine ⟨rfl, ?_⟩
    intro value call hcall
    obtain ⟨inner, -, rfl⟩ := map_eq_ok hcall
    cases inner <;> simp [VariantCarries, VariantCall.map, Wrapped.budget]
  seq := by
    intro reader
    show SeqCarries budget (DepthSeqAccess (C.seq reader) budget)
    cases C.seq reader <;> simp [SeqCarries, DepthSeqAccess, Wrapped.budget]
  map := by
    intro reader
    show MapCarries budget (DepthMapAccess (C.map reader) budget)
    cases C.map reader <;> simp [MapCarries, DepthMapAccess, Wrapped.budget]

/-! ## Documents -/

/-- A document that tells its own shape. -/
inductive Document
  | scalar (value : Scalar)
  | some (content : Document)
  | newtype (content : Document)
  | seq (elements : List Document)
  | map (entries : List (Document × Document))
  | newtype_variant (variant : String) (content : Document)

namespace Document

mutual

/-- How many sequences, maps, options, newtypes and variants are inside each other, at most. -/
def nesting : Document → Nat
  | .scalar _ => 0
  | .some content | .newtype content | .newtype_variant _ content => content.nesting + 1
  | .seq elements => nestings elements + 1
  | .map entries => entries_nesting entries + 1

def nestings : List Document → Nat
  | [] => 0
  | d :: ds => max d.nesting (nestings ds)

def entries_nesting : List (Document × Document) → Nat
  | [] => 0
  | (key, value) :: entries => max (max key.nesting value.nesting) (entries_nesting entries)

end

/-- What is left of the sequences and maps that are being read, the innermost first. -/
abbrev Open := List (List Document)

def handed {α : Type} (value : α) (state : Open) : Handed Open α where
  value
  state
  close := .ok
  note e := e.notes

def opened {α : Type} (value : α) (elements : List Document) (state : Open) : Handed Open α where
  value
  state := elements :: state
  close
    | [] :: state => .ok state
    | _ => .error ⟨"trailing elements", []⟩
  note e := e.notes

/-- Whatever it is asked for, a document shows what it is. -/
def «show» (state : Open) :
    Document → Handed Open (Visit Document Unit Unit (String × Document))
  | .scalar value => handed (.scalar value) state
  | .some content => handed (.some content) state
  | .newtype content => handed (.newtype_struct content) state
  | .seq elements => opened (.seq ()) elements state
  | .map entries => opened (.map ()) (entries.flatMap fun (key, value) => [key, value]) state
  | .newtype_variant variant content => handed (.enum (variant, content)) state

def next : Open → Except Error (Handed Open (Option Document))
  | (d :: ds) :: state => .ok (handed (Option.some d) (ds :: state))
  | state => .ok (handed none state)

def next_value : Open → Except Error (Handed Open Document)
  | (d :: ds) :: state => .ok (handed d (ds :: state))
  | _ => .error ⟨"value is missing", []⟩

end Document

def documents : Format Document.Open where
  Deserializer := Document
  SeqAccess := Unit
  MapAccess := Unit
  EnumAccess := String × Document
  VariantAccess := Document
  is_human_readable _ := true
  deserialize d _ _ state := .ok (d.show state)
  seq_size_hint _ state := state.head?.map List.length
  next_element _ := Document.next
  map_size_hint _ _ := none
  next_key _ := Document.next
  next_value _ := Document.next_value
  variant access state := .ok (Document.handed (.scalar (.str access.1), access.2) state)
  unit_variant _ _ := .error ⟨"invalid type: newtype variant, expected unit variant", []⟩
  newtype_variant content state := .ok (Document.handed content state)
  tuple_variant content _ _ state := .ok (content.show state)
  struct_variant content _ _ state := .ok (content.show state)

/-- Values of booleans in options and lists. -/
inductive Shape | bool | option (content : Shape) | list (element : Shape)
  deriving DecidableEq

/-- A list that is being read, its last element first, or one that is complete. -/
inductive ListReader
  | next (element : Shape) (read : List Document)
  | done (read : List Document)

namespace Shape

def program : Shape → Program Shape Document
  | .bool => fun _ => .ok ⟨.bool, .bool, .ok⟩
  | .option content => fun _ => .ok ⟨.option, .option content, .ok⟩
  | .list element => fun _ => .ok ⟨.seq, .list element, .ok⟩

def visit_bool : Scalar → Except Error Document
  | .bool v => .ok (.scalar (.bool v))
  | _ => .error ⟨"invalid type, expected a boolean", []⟩

def invalid : Error := ⟨"invalid type", []⟩

def impl (shape : Shape) : VisitorImpl Shape Shape ListReader Unit Document where
  expecting := "a value"
  visit_scalar :=
    match shape with
    | .bool => visit_bool
    | _ => fun _ => .error invalid
  visit_some :=
    match shape with
    | .option content => fun readable => (content.program readable).map fun asked =>
        { asked with finish := fun value => (asked.finish value).map Document.some }
    | _ => fun _ => .error invalid
  visit_newtype_struct _ := .error invalid
  visit_seq :=
    match shape with
    | .list element => .next element []
    | _ => .done []
  visit_map := ()
  visit_enum := .error invalid

end Shape

def shapes : Client Document where
  Seed := Shape
  Visitor := Shape
  SeqReader := ListReader
  MapReader := Unit
  seed := Shape.program
  visitor := Shape.impl
  seq
    | .next element read => .next_element_seed element fun
      | Option.some value => .next element (value :: read)
      | none => .done read
    | .done read => .return (.ok (.seq read.reverse))
  map _ := .return (.error Shape.invalid)

theorem shapes_narrow : NarrowAsWide shapes := by
  intro shape value
  cases shape with
  | bool => cases value <;> rfl
  | option content => rfl
  | list element => rfl

/-! ## The limit -/

/-- A limited deserialization comes to what the unlimited one comes to, if at most `max_depth`
compound values are asked for inside each other, and else to the error of the limit. -/
theorem depth_limited_exact (F : Format S) (C : Client Val) (hnarrow : NarrowAsWide C)
    (seed : C.Seed) (deserializer : F.Deserializer) (max_depth fuel : Nat) (s : S) :
    (∀ result reads, deserialize F C seed deserializer fuel s = some (result, reads) →
      if depths reads ≤ max_depth then
        from_deserializer F C seed deserializer max_depth fuel s = some (result, reads)
      else
        ∃ notes reads', from_deserializer F C seed deserializer max_depth fuel s =
          some (.error ⟨too_deep.message, notes⟩, reads')) ∧
    ∀ budget, Siblings C budget := by
  constructor
  · intro result reads hrun
    have hkept := exec_kept (F := F) hnarrow fuel max_depth (.deserialize (C.seed seed) deserializer)
    exact hkept s result reads hrun
  · exact siblings C

/-- A list of a list of one boolean is within a limit of two. -/
theorem depth_limited_exact_lists :
    ∃ reads, from_deserializer documents shapes (.list (.list .bool))
      (.seq [.seq [.scalar (.bool true)]]) 2 20 [] =
        some (.ok (.seq [.seq [.scalar (.bool true)]], []), reads) := by
  have hexact := (depth_limited_exact documents shapes shapes_narrow (.list (.list .bool))
    (.seq [.seq [.scalar (.bool true)]]) 2 20 []).1 _ _ rfl
  exact ⟨_, hexact⟩

/-- An option is one level of the document, but it is read with nothing left of the budget. -/
theorem option_is_not_counted :
    (Document.some (.scalar (.bool true))).nesting = 1 ∧
      ∃ reads, from_deserializer documents shapes (.option .bool)
        (Document.some (.scalar (.bool true))) 0 20 [] =
          some (.ok (Document.some (.scalar (.bool true)), []), reads) :=
  ⟨rfl, _, rfl⟩

end squonk.serde_depth
