import Squonk.Serde.Basic

/-!
# Clients that stand for each other

The run of a client is related to the run of another one that stands for it, if what they show
and ask is related step by step. The relation is any one that the combinators of runs respect.
-/

namespace serde

variable {S Val α β : Type}

/-- A relation of runs that is respected by every way a run is put together. -/
structure Compatible (R : ∀ {α : Type}, Run S α → Run S α → Prop) : Prop where
  lift : ∀ {α : Type} (result : Except Error α), R (.lift result) (.lift result)
  bind : ∀ {α β : Type} {x y : Run S α} {f g : α → Run S β}, R x y → (∀ a, R (f a) (g a)) →
    R (x.bind f) (y.bind g)
  hand : ∀ {α β : Type} (out : S → Except Error (Handed S α)) {use use' : α → Run S β},
    (∀ a, R (use a) (use' a)) → R (.hand out use) (.hand out use')
  ask : ∀ {α β : Type} (look : S → β) {f g : β → Run S α}, (∀ b, R (f b) (g b)) →
    R (.ask look f) (.ask look g)
  pass : ∀ {α : Type} (step : S → Except Error S) {x y : Run S α}, R x y →
    R (.pass step x) (.pass step y)

theorem compatible_eq : Compatible (S := S) fun x y => x = y where
  lift _ := rfl
  bind := by
    intro α β x y f g hx hf
    rw [hx, funext hf]
  hand := by
    intro α β out use use' huse
    rw [funext huse]
  ask := by
    intro α β look f g hf
    rw [funext hf]
  pass := by
    intro α step x y hx
    rw [hx]

/-! ## Standing for a client -/

section Maps

variable {Seed Seed' Visitor Visitor' Reader Reader' : Type}

def Asked.map (g : Visitor → Visitor') (asked : Asked Visitor Val) : Asked Visitor' Val where
  request := asked.request
  visitor := g asked.visitor
  finish := asked.finish

def Program.map (g : Visitor → Visitor') (program : Program Visitor Val) : Program Visitor' Val :=
  fun readable => (program readable).map (Asked.map g)

def SeqStep.map (f : Seed → Seed') (h : Reader → Reader') :
    SeqStep Seed Reader Val → SeqStep Seed' Reader' Val
  | .return result => .return result
  | .size_hint next => .size_hint fun hint => h (next hint)
  | .next_element_seed seed next => .next_element_seed (f seed) fun value => h (next value)

def MapStep.map (f : Seed → Seed') (h : Reader → Reader') :
    MapStep Seed Reader Val → MapStep Seed' Reader' Val
  | .return result => .return result
  | .size_hint next => .size_hint fun hint => h (next hint)
  | .next_key_seed seed next => .next_key_seed (f seed) fun value => h (next value)
  | .next_value_seed seed next => .next_value_seed (f seed) fun value => h (next value)

def VariantCall.map (f : Seed → Seed') (g : Visitor → Visitor') :
    VariantCall Seed Visitor Val → VariantCall Seed' Visitor' Val
  | .unit_variant result => .unit_variant result
  | .newtype_variant_seed seed finish => .newtype_variant_seed (f seed) finish
  | .tuple_variant len visitor finish => .tuple_variant len (g visitor) finish
  | .struct_variant fields visitor finish => .struct_variant fields (g visitor) finish

def VariantSeed.map (f : Seed → Seed') (g : Visitor → Visitor')
    (variant : VariantSeed Seed Visitor Val) : VariantSeed Seed' Visitor' Val where
  seed := f variant.seed
  content value := (variant.content value).map (VariantCall.map f g)

end Maps

section Related

variable {F : Format S} {C C' : Client Val}
variable {callee : Call F C → Run S Val} {callee' : Call F C' → Run S Val}
variable {f : C.Seed → C'.Seed} {g : C.Visitor → C'.Visitor}
variable {sq : C.SeqReader → C'.SeqReader} {mp : C.MapReader → C'.MapReader}

/-- The calls of `C'` that stand for calls of `C` are related to them. -/
structure CallsRelated (R : ∀ {α : Type}, Run S α → Run S α → Prop)
    (callee : Call F C → Run S Val) (callee' : Call F C' → Run S Val)
    (f : C.Seed → C'.Seed) (g : C.Visitor → C'.Visitor)
    (sq : C.SeqReader → C'.SeqReader) (mp : C.MapReader → C'.MapReader) : Prop where
  seed : ∀ seed d, R (run_seed F C callee seed d) (run_seed F C' callee' (f seed) d)
  visit : ∀ visitor shown, R (callee (.visit visitor shown)) (callee' (.visit (g visitor) shown))
  seq : ∀ reader access, R (callee (.seq reader access)) (callee' (.seq (sq reader) access))
  map : ∀ reader access, R (callee (.map reader access)) (callee' (.map (mp reader) access))

variable {R : ∀ {α : Type}, Run S α → Run S α → Prop}

theorem run_asked_related (hR : Compatible R) (hcalls : CallsRelated R callee callee' f g sq mp)
    (hinside : ∀ request {x y : Run S Val}, R x y → R (.inside request x) (.inside request y))
    (hexpecting : ∀ visitor, (C'.visitor (g visitor)).expecting = (C.visitor visitor).expecting)
    (d : F.Deserializer) (asked : Asked C.Visitor Val) :
    R (run_asked F C callee d asked) (run_asked F C' callee' d (asked.map g)) := by
  apply hR.bind
  · simp only [Asked.map, hexpecting]
    apply hinside
    apply hR.hand
    intro shown
    exact hcalls.visit asked.visitor shown
  · intro value
    exact hR.lift _

theorem run_seed?_related (hR : Compatible R) (hcalls : CallsRelated R callee callee' f g sq mp)
    (seed : C.Seed) (d : Option F.Deserializer) :
    R (run_seed? F C callee seed d) (run_seed? F C' callee' (f seed) d) := by
  cases d with
  | none => exact hR.lift _
  | some d =>
    apply hR.bind (hcalls.seed seed d)
    intro value
    exact hR.lift _

theorem run_seq_related (hR : Compatible R) (hcalls : CallsRelated R callee callee' f g sq mp)
    (access : F.SeqAccess) (step : SeqStep C.Seed C.SeqReader Val) :
    R (run_seq F C callee access step) (run_seq F C' callee' access (step.map f sq)) := by
  cases step with
  | «return» result => exact hR.lift result
  | size_hint next =>
    simp only [run_seq, SeqStep.map]
    apply hR.ask
    intro hint
    exact hcalls.seq (next hint) access
  | next_element_seed seed next =>
    apply hR.bind (hR.hand _ (run_seed?_related hR hcalls seed))
    intro value
    exact hcalls.seq (next value) access

theorem run_map_related (hR : Compatible R) (hcalls : CallsRelated R callee callee' f g sq mp)
    (access : F.MapAccess) (step : MapStep C.Seed C.MapReader Val) :
    R (run_map F C callee access step) (run_map F C' callee' access (step.map f mp)) := by
  cases step with
  | «return» result => exact hR.lift result
  | size_hint next =>
    simp only [run_map, MapStep.map]
    apply hR.ask
    intro hint
    exact hcalls.map (next hint) access
  | next_key_seed seed next =>
    apply hR.bind (hR.hand _ (run_seed?_related hR hcalls seed))
    intro value
    exact hcalls.map (next value) access
  | next_value_seed seed next =>
    apply hR.bind (hR.hand _ (hcalls.seed seed))
    intro value
    exact hcalls.map (next value) access

theorem run_variant_related (hR : Compatible R) (hcalls : CallsRelated R callee callee' f g sq mp)
    (hexpecting : ∀ visitor, (C'.visitor (g visitor)).expecting = (C.visitor visitor).expecting)
    (access : F.VariantAccess) (call : VariantCall C.Seed C.Visitor Val) :
    R (run_variant F C callee access call) (run_variant F C' callee' access (call.map f g)) := by
  cases call with
  | unit_variant result => exact hR.pass (F.unit_variant access) (hR.lift result)
  | newtype_variant_seed seed finish =>
    apply hR.bind (hR.hand _ (hcalls.seed seed))
    intro value
    exact hR.lift _
  | tuple_variant len visitor finish =>
    simp only [run_variant, VariantCall.map, hexpecting]
    apply hR.bind (hR.hand _ (hcalls.visit visitor))
    intro value
    exact hR.lift _
  | struct_variant fields visitor finish =>
    simp only [run_variant, VariantCall.map, hexpecting]
    apply hR.bind (hR.hand _ (hcalls.visit visitor))
    intro value
    exact hR.lift _

theorem run_enum_related (hR : Compatible R) (hcalls : CallsRelated R callee callee' f g sq mp)
    (hexpecting : ∀ visitor, (C'.visitor (g visitor)).expecting = (C.visitor visitor).expecting)
    (access : F.EnumAccess) (variant : VariantSeed C.Seed C.Visitor Val) :
    R (run_enum F C callee access variant) (run_enum F C' callee' access (variant.map f g)) := by
  apply hR.bind
  · apply hR.hand
    intro handed
    apply hR.bind (hcalls.seed variant.seed handed.1)
    intro value
    exact hR.lift _
  · rintro ⟨value, content⟩
    simp only [VariantSeed.map]
    cases variant.content value with
    | error e => exact hR.lift _
    | ok call => exact run_variant_related hR hcalls hexpecting content call

/-- The methods of `impl'` do on the accesses what those of `impl` do, and scalars are shown to
both alike. What they do with a wrapped value is up to the calls. -/
theorem run_visit_related (hR : Compatible R) (hcalls : CallsRelated R callee callee' f g sq mp)
    (hexpecting : ∀ visitor, (C'.visitor (g visitor)).expecting = (C.visitor visitor).expecting)
    {impl : VisitorImpl C.Seed C.Visitor C.SeqReader C.MapReader Val}
    {impl' : VisitorImpl C'.Seed C'.Visitor C'.SeqReader C'.MapReader Val}
    (hscalar : ∀ value, impl'.visit_scalar value = impl.visit_scalar value)
    (hsome : ∀ d, R (callee (.deserialize impl.visit_some d))
      (callee' (.deserialize impl'.visit_some d)))
    (hnewtype : ∀ d, R (callee (.deserialize impl.visit_newtype_struct d))
      (callee' (.deserialize impl'.visit_newtype_struct d)))
    (hseq : impl'.visit_seq = sq impl.visit_seq) (hmap : impl'.visit_map = mp impl.visit_map)
    (henum : impl'.visit_enum = impl.visit_enum.map (VariantSeed.map f g))
    (shown : Visit F.Deserializer F.SeqAccess F.MapAccess F.EnumAccess) :
    R (run_visit F C callee impl shown) (run_visit F C' callee' impl' shown) := by
  cases shown with
  | scalar value =>
    simp only [run_visit, hscalar]
    exact hR.lift _
  | some d => exact hsome d
  | newtype_struct d => exact hnewtype d
  | seq access =>
    simp only [run_visit, hseq]
    exact hcalls.seq impl.visit_seq access
  | map access =>
    simp only [run_visit, hmap]
    exact hcalls.map impl.visit_map access
  | enum access =>
    simp only [run_visit, henum]
    cases impl.visit_enum with
    | error e => exact hR.lift _
    | ok variant => exact run_enum_related hR hcalls hexpecting access variant

end Related

end serde
