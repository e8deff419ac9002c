import Squonk.Document.Validate
import Squonk.Document.Value

/-!
# Parse roots as documents

The reading and writing of one statement is the derived one of its type, a parameter here. A
document that is read back is rebuilt: its table is interned again and its statements are
validated.
-/

open squonk.interner squonk.serde_depth

namespace squonk.document

structure StringLiteralSyntaxDef where
  escape_strings : Bool
  dollar_quoted_strings : Bool
  national_strings : Bool
  double_quoted_strings : Bool
  backslash_escapes : Bool
  unicode_strings : Bool
  bit_string_literals : Bool
  blob_literals : Bool
  charset_introducers : Bool
  same_line_adjacent_concat : Bool
  deriving DecidableEq

/-- The derived writer and reader of the statement types. -/
structure Serde where
  serialize : Node → Value
  deserialize : Value → Option Node
  deserialize_serialize : ∀ node, deserialize (serialize node) = some node

structure Parsed where
  source : String
  /-- The frozen table of the interned texts. -/
  resolver : List String
  statements : List Node
  string_literals : StringLiteralSyntaxDef

structure ParsedData where
  source : String
  symbols : List String
  string_literals : StringLiteralSyntaxDef
  statements : List Node

inductive DeserializeError
  | TooDeep
  /-- The value does not have the shape of a document. -/
  | Malformed
  | DuplicateSymbols (declared distinct : Nat)
  | Invalid (error : ValidationError)

namespace StringLiteralSyntaxDef

def serialize (self : StringLiteralSyntaxDef) : Value :=
  .compound [.truth self.escape_strings, .truth self.dollar_quoted_strings,
    .truth self.national_strings, .truth self.double_quoted_strings,
    .truth self.backslash_escapes, .truth self.unicode_strings, .truth self.bit_string_literals,
    .truth self.blob_literals, .truth self.charset_introducers,
    .truth self.same_line_adjacent_concat]

def deserialize : Value → Option StringLiteralSyntaxDef
  | .compound [.truth escape_strings, .truth dollar_quoted_strings, .truth national_strings,
      .truth double_quoted_strings, .truth backslash_escapes, .truth unicode_strings,
      .truth bit_string_literals, .truth blob_literals, .truth charset_introducers,
      .truth same_line_adjacent_concat] =>
    some { escape_strings, dollar_quoted_strings, national_strings, double_quoted_strings,
           backslash_escapes, unicode_strings, bit_string_literals, blob_literals,
           charset_introducers, same_line_adjacent_concat }
  | _ => none

end StringLiteralSyntaxDef

def deserialize_text : Value → Option String
  | .text value => some value
  | _ => none

def deserialize_all {α : Type} (read : Value → Option α) : Value → Option (List α)
  | .compound items => items.mapM read
  | _ => none

theorem deserialize_all_map {α : Type} {read : Value → Option α} {write : α → Value}
    (h : ∀ x, read (write x) = some x) (xs : List α) :
    deserialize_all read (.compound (xs.map write)) = some xs := by
  rw [deserialize_all]
  induction xs with
  | nil => rfl
  | cons x xs ih => simp [h, ih]

variable (serde : Serde)

def Parsed.serialize (self : Parsed) : Value :=
  .compound [.text self.source, .compound (self.resolver.map .text),
    self.string_literals.serialize, .compound (self.statements.map serde.serialize)]

def ParsedData.deserialize : Value → Option ParsedData
  | .compound [source, symbols, string_literals, statements] => do
    let source ← deserialize_text source
    let symbols ← deserialize_all deserialize_text symbols
    let string_literals ← StringLiteralSyntaxDef.deserialize string_literals
    let statements ← deserialize_all serde.deserialize statements
    some { source, symbols, string_literals, statements }
  | _ => none

def deserialize_with_depth (value : Value) (max_depth : Nat) : Except DeserializeError Parsed :=
  match Value.limited max_depth value with
  | none => .error .TooDeep
  | some value =>
    match ParsedData.deserialize serde value with
    | none => .error .Malformed
    | some data =>
      let resolver := (rebuild data.symbols).strings
      if resolver.length ≠ data.symbols.length then
        .error (.DuplicateSymbols data.symbols.length resolver.length)
      else
        match validate data.source.toList resolver data.statements with
        | .error message => .error (.Invalid message)
        | .ok () => .ok ⟨data.source, resolver, data.statements, data.string_literals⟩

/-- Exactly the documents that are accepted. -/
theorem deserialize_ok_iff (value : Value) (max_depth : Nat) (parsed : Parsed) :
    deserialize_with_depth serde value max_depth = .ok parsed ↔
      value.nesting ≤ max_depth ∧
      ParsedData.deserialize serde value =
        some ⟨parsed.source, parsed.resolver, parsed.string_literals, parsed.statements⟩ ∧
      parsed.resolver.Nodup ∧
      validate parsed.source.toList parsed.resolver parsed.statements = .ok () := by
  unfold deserialize_with_depth
  rw [Value.limited_eq]
  by_cases hdepth : value.nesting ≤ max_depth
  · rw [if_pos hdepth]
    dsimp only
    cases hdata : ParsedData.deserialize serde value with
    | none => simp
    | some data =>
      obtain ⟨source, symbols, string_literals, statements⟩ := data
      dsimp only
      by_cases hnodup : symbols.Nodup
      · have hlength := (rebuild_length_iff symbols).mpr hnodup
        rw [if_neg (not_not.mpr hlength), rebuild_of_nodup hnodup]
        cases hvalid : validate source.toList symbols statements with
        | error message =>
          constructor
          · intro h
            cases h
          · rintro ⟨-, hparsed, -, hok⟩
            obtain ⟨rfl, rfl, rfl, rfl⟩ := ParsedData.mk.inj (Option.some.inj hparsed)
            rw [hvalid] at hok
            cases hok
        | ok =>
          constructor
          · intro h
            obtain rfl := Except.ok.inj h
            exact ⟨hdepth, rfl, hnodup, hvalid⟩
          · rintro ⟨-, hparsed, -, -⟩
            obtain ⟨rfl, rfl, rfl, rfl⟩ := ParsedData.mk.inj (Option.some.inj hparsed)
            rfl
      · have hlength := (rebuild_length_iff symbols).not.mpr hnodup
        rw [if_pos hlength]
        constructor
        · intro h
          cases h
        · rintro ⟨-, hparsed, hnodup', -⟩
          obtain ⟨-, rfl, -, -⟩ := ParsedData.mk.inj (Option.some.inj hparsed)
          exact absurd hnodup' hnodup
  · rw [if_neg hdepth]
    simp [hdepth]

/-- The document of a parse root has the shape of a document. -/
theorem deserialize_serialize (parsed : Parsed) :
    ParsedData.deserialize serde (parsed.serialize serde) =
      some ⟨parsed.source, parsed.resolver, parsed.string_literals, parsed.statements⟩ := by
  have htext : ∀ text, deserialize_text (.text text) = some text := fun _ => rfl
  have hsymbols := deserialize_all_map htext parsed.resolver
  have hstatements := deserialize_all_map serde.deserialize_serialize parsed.statements
  have hstrings : StringLiteralSyntaxDef.deserialize parsed.string_literals.serialize =
      some parsed.string_literals := rfl
  rw [Parsed.serialize, ParsedData.deserialize, deserialize_text, hsymbols, hstatements, hstrings]
  rfl

end squonk.document
