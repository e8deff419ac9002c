import Squonk.Ast.Literal.EscapeCheck

/-!
# Escape strings are checked as they are decoded

The check at parse time accepts an escape string just if the accessor has a value for it.
-/

open squonk.dialect squonk.tokenizer

namespace squonk.ast.literal

theorem from_utf8_iff (bytes : List UInt8) :
    (∃ text, from_utf8 bytes = .ok text) ↔ utf8.WellFormed bytes := by
  rw [← utf8.isSome_utf8Decode?_iff, from_utf8]
  cases bytes.toByteArray.utf8Decode? with
  | none => simp [invalid]
  | some text => simp

theorem incremental_feed (tail : escape.Utf8Tail) (bytes : List UInt8) :
    incremental.feed tail bytes = (escape.utf8_run tail bytes).elim invalid .ok :=
  (incremental_bytewise tail bytes).symm

/-- The machine is between two characters at the end just if the accessor decodes the bytes. -/
theorem scan_agrees (body : List SourceByte) :
    (scan_postgres_escape_string incremental body.length [] body escape.UTF8_TAIL_START =
        .ok escape.UTF8_TAIL_START) ↔
      ∃ value, (scan_postgres_escape_string collected body.length [] body [] >>= from_utf8) =
        .ok value := by
  rw [scan_postgres_escape_string_walks body.length incremental_bytewise]
  constructor
  · rintro ⟨bytes, hbytes, hfeed⟩
    rw [incremental_feed] at hfeed
    have hrun : escape.utf8_run escape.UTF8_TAIL_START bytes = some escape.UTF8_TAIL_START := by
      cases hrun : escape.utf8_run escape.UTF8_TAIL_START bytes with
      | none => simp [hrun, invalid] at hfeed
      | some tail => simpa [hrun] using hfeed
    obtain ⟨text, hvalue⟩ := (from_utf8_iff bytes).mpr ((utf8_run_iff bytes).mp hrun)
    exact ⟨text, bind_eq_ok.mpr ⟨bytes, hbytes, hvalue⟩⟩
  · rintro ⟨value, hvalue⟩
    obtain ⟨bytes, hbytes, hdecoded⟩ := bind_eq_ok.mp hvalue
    refine ⟨bytes, hbytes, ?_⟩
    rw [incremental_feed, (utf8_run_iff bytes).mpr ((from_utf8_iff bytes).mp ⟨value, hdecoded⟩)]
    rfl

/-- The check of a body that is a text has a verdict, and it is whether the accessor has a value. -/
theorem verdict_iff_value {text body : List SourceByte}
    (hbody : escape.postgres_escape_body text = some body) (htext : IsText body) :
    ∃ valid, postgres_escape_string_is_valid text = .ok valid ∧
      (valid = true ↔ ∃ value, materialize_postgres_escape_string body = .ok value) := by
  have hsafe := scan_postgres_escape_string_safe incremental_total body.length [] htext le_rfl
    escape.UTF8_TAIL_START
  have hagrees := scan_agrees body
  unfold postgres_escape_string_is_valid materialize_postgres_escape_string
  rw [hbody]
  dsimp only
  split
  · exact ⟨true, rfl, by simp⟩
  · cases hscan : scan_postgres_escape_string incremental body.length [] body
        escape.UTF8_TAIL_START with
    | ok tail =>
      refine ⟨tail == escape.UTF8_TAIL_START, rfl, ?_⟩
      rw [hscan] at hagrees
      rw [← hagrees, beq_iff_eq, Except.ok.injEq]
    | error fault =>
      cases fault with
      | invalid =>
        refine ⟨false, rfl, ?_⟩
        rw [hscan] at hagrees
        rw [← hagrees]
        simp
      | panic => exact absurd hscan hsafe

theorem materialize_postgres_escape_string_safe {body : List SourceByte} (htext : IsText body) :
    Safe (materialize_postgres_escape_string body) := by
  unfold materialize_postgres_escape_string
  split
  · exact .ok _
  · refine (scan_postgres_escape_string_safe collected_total _ _ htext le_rfl _).bind ?_
    intro bytes _
    unfold from_utf8
    split
    · exact .ok _
    · exact .invalid

/-! ## Literals -/

def escape_marker (upper : Bool) : Char := bif upper then 'E' else 'e'

/-- The text of an escape string with the body. -/
def escape_literal (upper : Bool) (body : List Char) : List Char :=
  escape_marker upper :: single_quote :: (body ++ [single_quote])

theorem encode_escape_literal (upper : Bool) (body : List Char) :
    tokenizer.encode (escape_literal upper body) =
      ⟨ascii (escape_marker upper), some (escape_marker upper)⟩ ::
        ⟨ascii single_quote, some single_quote⟩ ::
          (tokenizer.encode body ++ [⟨ascii single_quote, some single_quote⟩]) := by
  have hmarker : encode_char (escape_marker upper) =
      [⟨ascii (escape_marker upper), some (escape_marker upper)⟩] := by
    cases upper <;> rfl
  rw [escape_literal, encode_cons, encode_cons, encode_append, hmarker]
  rfl

theorem postgres_escape_body_literal (upper : Bool) (body : List Char) :
    escape.postgres_escape_body (tokenizer.encode (escape_literal upper body)) =
      some (tokenizer.encode body) := by
  have hmarker : (ascii (escape_marker upper) == ascii 'E' ||
      ascii (escape_marker upper) == ascii 'e') = true := by
    cases upper <;> rfl
  rw [encode_escape_literal, escape.postgres_escape_body]
  simp [hmarker]

/-- The check of an escape string accepts it just if it has a value, whatever its body is, and
    no step of either slices the body inside of a character. -/
theorem escape_string_valid_iff_value (upper : Bool) (body : List Char) :
    (∃ valid, postgres_escape_string_is_valid (tokenizer.encode (escape_literal upper body)) =
        .ok valid ∧
      (valid = true ↔
        ∃ value, materialize_postgres_escape_string (tokenizer.encode body) = .ok value)) ∧
    materialize_postgres_escape_string (tokenizer.encode body) ≠ .error .panic ∧
    ∀ bytes, escape.utf8_run escape.UTF8_TAIL_START bytes = some escape.UTF8_TAIL_START ↔
      ∃ text, from_utf8 bytes = .ok text := by
  have htext := isText_encode body
  refine ⟨?_, materialize_postgres_escape_string_safe htext, fun bytes => ?_⟩
  · exact verdict_iff_value (postgres_escape_body_literal upper body) htext
  · rw [utf8_run_iff, from_utf8_iff]

end squonk.ast.literal
