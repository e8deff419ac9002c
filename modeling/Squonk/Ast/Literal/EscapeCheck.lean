import Squonk.Ast.Literal.EscapeString

/-!
# The check of an escape string and its value

The walk gives every sink the same bytes, one after the other, so that the check accepts a body
just if the accessor has a value for it.
-/

open squonk.dialect squonk.tokenizer

namespace squonk.ast.literal

theorem bind_eq_ok {α β : Type} {x : Value α} {f : α → Value β} {b : β} :
    (x >>= f) = .ok b ↔ ∃ a, x = .ok a ∧ f a = .ok b := by
  cases x with
  | error fault => simp [bind, Except.bind]
  | ok a => simp [bind, Except.bind]

theorem ok_bind {α β : Type} (a : α) (f : α → Value β) : ((.ok a : Value α) >>= f) = f a := rfl

/-! ## Sinks -/

/-- The sink behind some bytes, given one after the other. -/
def EscapeSink.feed {S : Type} (sink : EscapeSink S) (out : S) (bytes : List UInt8) : Value S :=
  bytes.foldlM sink.raw_byte out

/-- A run of bytes is to the sink what its bytes are. -/
def EscapeSink.Bytewise {S : Type} (sink : EscapeSink S) : Prop :=
  ∀ out bytes, sink.utf8_run out bytes = sink.feed out bytes

theorem collected_feed (out bytes : List UInt8) : collected.feed out bytes = .ok (out ++ bytes) := by
  induction bytes generalizing out with
  | nil => simp [EscapeSink.feed, pure, Except.pure]
  | cons byte bytes ih =>
    rw [EscapeSink.feed, List.foldlM_cons]
    exact (ih (out ++ [byte])).trans (by rw [List.append_assoc, List.singleton_append])

theorem collected_bytewise : collected.Bytewise := fun out bytes => (collected_feed out bytes).symm

theorem incremental_bytewise : incremental.Bytewise := by
  intro tail bytes
  induction bytes generalizing tail with
  | nil => rfl
  | cons byte bytes ih =>
    show (escape.utf8_run tail (byte :: bytes)).elim invalid .ok = _
    rw [utf8_run_cons, EscapeSink.feed, List.foldlM_cons]
    show _ = ((escape.utf8_tail_push tail byte).elim invalid .ok >>= _)
    cases escape.utf8_tail_push tail byte with
    | none => rfl
    | some tail => exact ih tail

section
variable {S : Type} {sink : EscapeSink S} (h : sink.Bytewise)

theorem feed_append (out : S) (front bytes : List UInt8) :
    sink.feed out (front ++ bytes) = (sink.feed out front >>= fun out => sink.feed out bytes) :=
  List.foldlM_append

/-- What is left of the body and the bytes that were decoded, with the bytes given to the sink. -/
def EscapeSink.give (sink : EscapeSink S) (out : S) (decoded : List SourceByte × List UInt8) :
    Value (List SourceByte × S) :=
  (sink.feed out decoded.2).map (decoded.1, ·)

/-! ## Escapes -/

theorem push_escape_byte_eq (rest : List SourceByte) (out : S) (byte : UInt8) :
    (do return (rest, ← push_escape_byte sink out byte) : Value (List SourceByte × S)) =
      ((do return (rest, ← push_escape_byte collected [] byte)) >>= sink.give out) := by
  unfold push_escape_byte
  split
  · rfl
  · show (sink.raw_byte out byte >>= _) = (sink.feed out [byte]).map (rest, ·)
    rw [EscapeSink.feed, List.foldlM_cons]
    cases sink.raw_byte out byte <;> rfl

include h in
theorem utf8_run_eq (rest : List SourceByte) (out : S) (bytes : List UInt8) :
    (do return (rest, ← sink.utf8_run out bytes) : Value (List SourceByte × S)) =
      ((do return (rest, ← collected.utf8_run [] bytes)) >>= sink.give out) := by
  rw [h out bytes]
  show (sink.feed out bytes >>= _) = (sink.feed out ([] ++ bytes)).map (rest, ·)
  rw [List.nil_append]
  cases sink.feed out bytes <;> rfl

include h in
theorem consume_escaped_char_eq (body : List SourceByte) (out : S) :
    consume_escaped_char sink body out =
      (consume_escaped_char collected body [] >>= sink.give out) := by
  unfold consume_escaped_char
  cases slice_from body with
  | error fault => rfl
  | ok text =>
    simp only [ok_bind]
    cases text.head?.bind (·.char) with
    | none => rfl
    | some c =>
      dsimp only
      split
      · rfl
      · exact utf8_run_eq h _ _ _

include h in
/-- Every sink is given the bytes that an escape decodes to. -/
theorem consume_postgres_escape_eq (body : List SourceByte) (out : S) :
    consume_postgres_escape sink body out =
      (consume_postgres_escape collected body [] >>= sink.give out) := by
  unfold consume_postgres_escape
  cases body with
  | nil => rfl
  | cons b rest =>
    have hunicode (width : Nat) : consume_unicode_escape sink (b :: rest) out width =
        (consume_unicode_escape collected (b :: rest) [] width >>= sink.give out) := by
      unfold consume_unicode_escape
      cases unicode_escape_char (b :: rest) width with
      | none => rfl
      | some c =>
        dsimp only
        split
        · rfl
        · exact utf8_run_eq h _ _ _
    have hhex : consume_hex_escape sink (b :: rest) out =
        (consume_hex_escape collected (b :: rest) [] >>= sink.give out) := by
      unfold consume_hex_escape
      split
      · exact consume_escaped_char_eq h _ _
      split
      · exact push_escape_byte_eq _ _ _
      · exact push_escape_byte_eq _ _ _
    dsimp only
    split
    · exact push_escape_byte_eq _ _ _
    split
    · exact push_escape_byte_eq _ _ _
    split
    · exact push_escape_byte_eq _ _ _
    split
    · exact push_escape_byte_eq _ _ _
    split
    · exact push_escape_byte_eq _ _ _
    split
    · exact push_escape_byte_eq _ _ _
    split
    · exact hhex
    split
    · exact hunicode 4
    split
    · exact hunicode 8
    · exact consume_escaped_char_eq h _ _

/-! ## The walk -/

/-- The walk with `n` turns gives every sink the same bytes. -/
def Walks (n : Nat) : Prop :=
  ∀ {S : Type} {sink : EscapeSink S}, sink.Bytewise → ∀ (segment : List UInt8)
    (rest : List SourceByte) (out stop : S),
    scan_postgres_escape_string sink n segment rest out = .ok stop ↔
      ∃ bytes, scan_postgres_escape_string collected n segment rest [] = .ok bytes ∧
        sink.feed out bytes = .ok stop

include h in
/-- A walk that goes on behind some bytes. -/
theorem Walks.behind {n : Nat} (hn : Walks n) (front : List UInt8) (rest : List SourceByte)
    (out stop : S) :
    (sink.feed out front >>= fun out => scan_postgres_escape_string sink n [] rest out) =
        .ok stop ↔
      ∃ bytes, scan_postgres_escape_string collected n [] rest front = .ok bytes ∧
        sink.feed out bytes = .ok stop := by
  constructor
  · intro hwalk
    obtain ⟨between, hfront, hrest⟩ := bind_eq_ok.mp hwalk
    obtain ⟨bytes, hbytes, hfeed⟩ := (hn h _ _ _ _).mp hrest
    refine ⟨front ++ bytes, (hn collected_bytewise _ _ _ _).mpr ⟨bytes, hbytes, ?_⟩, ?_⟩
    · exact collected_feed front bytes
    · rw [feed_append, hfront]
      exact hfeed
  · rintro ⟨bytes, hbytes, hfeed⟩
    obtain ⟨behind, hbehind, heq⟩ := (hn collected_bytewise _ _ _ _).mp hbytes
    rw [collected_feed] at heq
    cases heq
    rw [feed_append] at hfeed
    obtain ⟨between, hfront, hrest⟩ := bind_eq_ok.mp hfeed
    exact bind_eq_ok.mpr ⟨between, hfront, (hn h _ _ _ _).mpr ⟨behind, hbehind, hrest⟩⟩

theorem scan_postgres_escape_string_walks (n : Nat) : Walks n := by
  induction n with
  | zero =>
    intro S sink h segment rest out stop
    cases rest with
    | nil =>
      simp only [scan_postgres_escape_string, h out segment, collected_bytewise [] segment,
        collected_feed, List.nil_append]
      exact ⟨fun hfeed => ⟨segment, rfl, hfeed⟩, fun ⟨_, heq, hfeed⟩ => by cases heq; exact hfeed⟩
    | cons b rest =>
      simp [scan_postgres_escape_string]
  | succ n ih =>
    intro S sink h segment rest out stop
    cases rest with
    | nil =>
      simp only [scan_postgres_escape_string, h out segment, collected_bytewise [] segment,
        collected_feed, List.nil_append]
      exact ⟨fun hfeed => ⟨segment, rfl, hfeed⟩, fun ⟨_, heq, hfeed⟩ => by cases heq; exact hfeed⟩
    | cons b rest =>
      unfold scan_postgres_escape_string
      split
      · -- a quote, which is doubled
        split
        · have hquote (out : S) : push_escape_byte sink out (ascii single_quote) =
              sink.feed out [ascii single_quote] := by
            rw [EscapeSink.feed, List.foldlM_cons]
            show sink.raw_byte out _ = _
            cases sink.raw_byte out (ascii single_quote) <;> rfl
          have hbehind := ih.behind h (segment ++ [ascii single_quote]) (rest.drop 1) out stop
          simp only [feed_append, bind_assoc, ← hquote, ← h out segment] at hbehind
          exact hbehind
        · simp [invalid]
      split
      · -- an escape
        have hsink (out : S) := consume_postgres_escape_eq h rest out
        have hcollected := consume_postgres_escape_eq collected_bytewise rest ([] ++ segment)
        simp only [h out segment, hsink]
        show _ ↔ ∃ bytes, (consume_postgres_escape collected rest ([] ++ segment) >>= _) =
          .ok bytes ∧ _
        rw [hcollected]
        cases hdecoded : consume_postgres_escape collected rest [] with
        | error fault =>
          refine iff_of_false (fun hwalk => ?_) fun ⟨bytes, hwalk, _⟩ => ?_
          · obtain ⟨between, -, hrest⟩ := bind_eq_ok.mp hwalk
            cases hrest
          · cases hwalk
        | ok decoded =>
          obtain ⟨rest', bytes⟩ := decoded
          have hbehind := ih.behind h (segment ++ bytes) rest' out stop
          have hgive (out : S) : sink.give out (rest', bytes) =
              (sink.feed out bytes >>= fun out => .ok (rest', out)) := by
            unfold EscapeSink.give
            cases sink.feed out bytes <;> rfl
          have hkept : collected.give ([] ++ segment) (rest', bytes) =
              .ok (rest', segment ++ bytes) := by
            rw [EscapeSink.give, collected_feed, List.nil_append]
            rfl
          show (sink.feed out segment >>= fun out =>
              (sink.give out (rest', bytes) >>= fun decoded =>
                scan_postgres_escape_string sink n [] decoded.1 decoded.2)) = _ ↔
            ∃ bytes', (collected.give ([] ++ segment) (rest', bytes) >>= fun decoded =>
              scan_postgres_escape_string collected n [] decoded.1 decoded.2) = _ ∧ _
          rw [hkept]
          simp only [hgive, bind_assoc]
          rw [feed_append, bind_assoc] at hbehind
          exact hbehind
      · exact ih h _ _ _ _

end

/-! ## Slices -/

/-- It does not slice a text inside of a character. -/
def Safe {α : Type} (x : Value α) : Prop := x ≠ .error .panic

theorem Safe.ok {α : Type} (a : α) : Safe (.ok a) := by simp [Safe]

theorem Safe.invalid {α : Type} : Safe (literal.invalid : Value α) := by simp [Safe, literal.invalid]

theorem Safe.bind {α β : Type} {x : Value α} {f : α → Value β} (hx : Safe x)
    (hf : ∀ a, x = .ok a → Safe (f a)) : Safe (x >>= f) := by
  cases x with
  | ok a => exact hf a rfl
  | error fault =>
    cases fault with
    | invalid => exact Safe.invalid
    | panic => exact absurd rfl hx

/-- A sink that does not slice the text. -/
structure EscapeSink.Total {S : Type} (sink : EscapeSink S) : Prop where
  utf8_run : ∀ out bytes, Safe (sink.utf8_run out bytes)
  raw_byte : ∀ out byte, Safe (sink.raw_byte out byte)

theorem collected_total : collected.Total := ⟨fun _ _ => .ok _, fun _ _ => .ok _⟩

theorem incremental_total : incremental.Total := by
  have helim {tail : Option escape.Utf8Tail} : Safe (tail.elim invalid .ok) := by
    cases tail with
    | none => exact .invalid
    | some tail => exact .ok tail
  exact ⟨fun _ _ => helim, fun _ _ => helim⟩

section
variable {S : Type} {sink : EscapeSink S}

theorem Safe.return {x : Value S} (h : Safe x) (rest : List SourceByte) :
    Safe (do return (rest, ← x) : Value (List SourceByte × S)) :=
  h.bind fun out _ => .ok (rest, out)

theorem rest_eq_of_return {x : Value S} {rest rest' : List SourceByte} {out : S}
    (h : (do return (rest, ← x) : Value (List SourceByte × S)) = .ok (rest', out)) :
    rest = rest' := by
  obtain ⟨out', -, heq⟩ := bind_eq_ok.mp h
  cases heq
  rfl

theorem push_escape_byte_safe (h : sink.Total) (out : S) (byte : UInt8) :
    Safe (push_escape_byte sink out byte) := by
  unfold push_escape_byte
  split
  · exact .invalid
  · exact h.raw_byte out byte

/-- An escape ends further on in the body. -/
theorem consume_postgres_escape_suffix {body rest : List SourceByte} {out out' : S}
    (h : consume_postgres_escape sink body out = .ok (rest, out')) : rest <:+ body := by
  have hdrop {n : Nat} {x : Value S}
      (h : (do return (body.drop n, ← x) : Value (List SourceByte × S)) = .ok (rest, out')) :
      rest <:+ body := by
    rw [← rest_eq_of_return h]
    exact List.drop_suffix n body
  have hchar (h : consume_escaped_char sink body out = .ok (rest, out')) : rest <:+ body := by
    obtain ⟨text, -, h⟩ := bind_eq_ok.mp h
    split at h
    · cases h
    split at h
    · cases h
    · exact hdrop h
  have hunicode {width : Nat} (h : consume_unicode_escape sink body out width = .ok (rest, out')) :
      rest <:+ body := by
    unfold consume_unicode_escape at h
    split at h
    · cases h
    split at h
    · cases h
    · exact hdrop h
  unfold consume_postgres_escape at h
  cases body with
  | nil => cases h
  | cons b body =>
    have hletter {x : Value S}
        (h : (do return (body, ← x) : Value (List SourceByte × S)) = .ok (rest, out')) :
        rest <:+ b :: body := by
      rw [← rest_eq_of_return h]
      exact List.suffix_cons b body
    dsimp only at h
    split at h
    · exact hletter h
    split at h
    · exact hletter h
    split at h
    · exact hletter h
    split at h
    · exact hletter h
    split at h
    · exact hletter h
    split at h
    · exact hdrop h
    split at h
    · unfold consume_hex_escape at h
      split at h
      · exact hchar h
      split at h
      · exact hdrop h
      · exact hdrop h
    split at h
    · exact hunicode h
    split at h
    · exact hunicode h
    · exact hchar h

/-- From between two characters an escape is read without slicing one. -/
theorem consume_postgres_escape_safe (h : sink.Total) {body : List SourceByte}
    (hbody : whole body = true) (out : S) : Safe (consume_postgres_escape sink body out) := by
  have hchar : Safe (consume_escaped_char sink body out) := by
    unfold consume_escaped_char
    rw [slice_from, if_pos hbody, ok_bind]
    split
    · exact .invalid
    split
    · exact .invalid
    · exact (h.utf8_run _ _).return _
  have hunicode (width : Nat) : Safe (consume_unicode_escape sink body out width) := by
    unfold consume_unicode_escape
    split
    · exact .invalid
    split
    · exact .invalid
    · exact (h.utf8_run _ _).return _
  have hpush (byte : UInt8) (rest : List SourceByte) :=
    (push_escape_byte_safe h out byte).return rest
  unfold consume_postgres_escape
  cases body with
  | nil => exact .invalid
  | cons b body =>
    dsimp only
    split
    · exact hpush _ _
    split
    · exact hpush _ _
    split
    · exact hpush _ _
    split
    · exact hpush _ _
    split
    · exact hpush _ _
    split
    · exact hpush _ _
    split
    · unfold consume_hex_escape
      split
      · exact hchar
      split
      · exact hpush _ _
      · exact hpush _ _
    split
    · exact hunicode 4
    split
    · exact hunicode 8
    · exact hchar

/-- The walk over a text slices it between characters only, and comes to its end. -/
theorem scan_postgres_escape_string_safe (h : sink.Total) (n : Nat) (segment : List UInt8)
    {rest : List SourceByte} (htext : IsText rest) (hn : rest.length ≤ n) (out : S) :
    Safe (scan_postgres_escape_string sink n segment rest out) := by
  induction n generalizing segment rest out with
  | zero =>
    cases rest with
    | nil => exact h.utf8_run out segment
    | cons b rest => simp at hn
  | succ n ih =>
    cases rest with
    | nil => exact h.utf8_run out segment
    | cons b rest =>
      have hrest : IsText rest := htext.of_suffix (List.suffix_cons b rest)
      have hlength : rest.length ≤ n := by simpa using hn
      unfold scan_postgres_escape_string
      split
      · split
        · refine (h.utf8_run _ _).bind fun out _ => (push_escape_byte_safe h _ _).bind fun out _ => ?_
          refine ih [] (hrest.of_suffix (List.drop_suffix 1 rest)) ?_ out
          rw [List.length_drop]
          omega
        · exact .invalid
      split
      · rename_i hbackslash
        have hascii : b.byte < 0x80 := by
          rw [eq_of_beq hbackslash]
          decide
        refine (h.utf8_run _ _).bind fun out _ => ?_
        refine (consume_postgres_escape_safe h (htext.ascii hascii).2 out).bind ?_
        rintro ⟨rest', out'⟩ hdecoded
        have hsuffix := consume_postgres_escape_suffix hdecoded
        exact ih [] (hrest.of_suffix hsuffix) (hsuffix.length_le.trans hlength) out'
      · exact ih _ hrest hlength out

end

end squonk.ast.literal
