import Squonk.Dialect.Presets
import Squonk.Tokenizer.Tiling

/-!
# Nothing of a source is lost

Whether trivia is recorded does not change what is read, and the tokens of a source and its trivia
together leave out no byte of it.
-/

open squonk.dialect squonk.dialect.lex_class squonk.document tiling

namespace squonk.tokenizer.scan

variable {features : FeatureSet} {unicode : Unicode}

/-! ## Recording changes nothing -/

theorem give_recorded (trivia ranges : List TriviaRange) :
    Recorded.give trivia ranges = trivia ++ ranges := by
  unfold TriviaSink.give Recorded
  induction ranges generalizing trivia with
  | nil => simp
  | cons range ranges ih => simpa using ih (trivia ++ [range])

theorem give_append {S : Type} (sink : TriviaSink S) (trivia : S)
    (ranges ranges' : List TriviaRange) :
    sink.give trivia (ranges ++ ranges') = sink.give (sink.give trivia ranges) ranges' := by
  unfold TriviaSink.give
  cases sink.RECORDING <;> simp

theorem give_nil {S : Type} (sink : TriviaSink S) (trivia : S) : sink.give trivia [] = trivia := by
  unfold TriviaSink.give
  cases sink.RECORDING <;> rfl

theorem give_singleton {S : Type} (sink : TriviaSink S) (trivia : S) (range : TriviaRange) :
    sink.give trivia [range] =
      bif sink.RECORDING then sink.record trivia range else trivia := by
  unfold TriviaSink.give
  cases sink.RECORDING <;> rfl

/-- A sink gets what a sink that records has recorded. -/
theorem skip_trivia_loop_give (n : Nat) {S : Type} (sink : TriviaSink S) (sweep : Sweep)
    (c : Cursor) (trivia : S) (state : LexState) :
    skip_trivia_loop features sink n sweep c trivia state =
      (skip_trivia_loop features Recorded n sweep c [] state).map
        fun (stop, ranges, state) => (stop, sink.give trivia ranges, state) := by
  induction n using Nat.strong_induction_on generalizing S sink sweep c trivia state with
  | h n ih =>
    rw [skip_trivia_loop.eq_def features sink, skip_trivia_loop.eq_def features Recorded]
    dsimp only
    cases trivia_run features c state with
    | error fault => rfl
    | ok run =>
      cases run with
      | none =>
        cases sweep.pending_boundary with
        | none => simp [bind, Except.bind, pure, Except.pure, Except.map, give_nil]
        | some off =>
          cases c.peek.any (· != ascii ';') with
          | true => simp [bind, Except.bind, Except.map, lex_error]
          | false => simp [bind, Except.bind, pure, Except.pure, Except.map, give_nil]
      | some run =>
        obtain ⟨kind, stop, between⟩ := run
        cases hcheck : check_run features kind c stop sweep with
        | error fault => simp [bind, Except.bind, Except.map, hcheck]
        | ok behind =>
          simp only [bind, Except.bind, hcheck, ← give_singleton]
          cases n with
          | zero => rfl
          | succ m =>
            dsimp only
            rw [ih m (Nat.lt_succ_self m) sink,
              ih m (Nat.lt_succ_self m) Recorded behind stop (Recorded.give [] _)]
            cases skip_trivia_loop features Recorded m behind stop [] between with
            | error fault => rfl
            | ok scanned => simp [Except.map, give_recorded, ← give_append]

theorem next_token_give {S : Type} (sink : TriviaSink S) (source : List SourceByte) (c : Cursor)
    (trivia : S) (state : LexState) :
    next_token unicode features sink source c trivia state =
      (next_token unicode features Recorded source c [] state).map
        fun (token, stop, ranges, state) => (token, stop, sink.give trivia ranges, state) := by
  unfold next_token skip_trivia
  rw [skip_trivia_loop_give]
  cases skip_trivia_loop features Recorded c.rest.length _ c [] state with
  | error fault => rfl
  | ok scanned =>
    obtain ⟨start, ranges, state'⟩ := scanned
    simp only [Except.map, bind, Except.bind]
    cases start.peek with
    | none =>
      cases state'.versioned_region_start with
      | some opener => simp [lex_error]
      | none => simp [pure, Except.pure]
    | some byte =>
      dsimp only
      cases scan_token unicode features start byte with
      | error fault => rfl
      | ok scanned =>
        dsimp only
        cases check_nul start scanned with
        | error fault => rfl
        | ok scanned => rfl

theorem collect_give {S : Type} (sink : TriviaSink S) (source : List SourceByte) (n : Nat)
    (c : Cursor) (trivia : S) (state : LexState) (tokens : List Token) :
    collect unicode features sink source n c trivia state tokens =
      (collect unicode features Recorded source n c [] state tokens).map
        fun (tokens, ranges) => (tokens, sink.give trivia ranges) := by
  induction n generalizing S sink c trivia state tokens with
  | zero => simp [collect, Except.map, give_nil]
  | succ n ih =>
    rw [collect, collect, next_token_give]
    cases next_token unicode features Recorded source c [] state with
    | error fault => rfl
    | ok scanned =>
      obtain ⟨token, stop, ranges, state'⟩ := scanned
      cases token with
      | none => rfl
      | some token =>
        simp only [Except.map, bind, Except.bind]
        rw [ih sink, ih Recorded stop ranges]
        cases collect unicode features Recorded source n stop [] state' (tokens ++ [token]) with
        | error fault => rfl
        | ok read => simp [Except.map, give_recorded, give_append]

/-- A source is read the same way whether its trivia is recorded or not. -/
theorem tokenize_with_eq (source : List Char) (features : FeatureSet) :
    tokenize_with unicode source features =
      (tokenize_with_trivia unicode source features).map Prod.fst := by
  unfold tokenize_with tokenize_with_trivia collect_all
  split
  · rfl
  · rw [collect_give]
    cases collect unicode features Recorded _ _ _ _ _ _ with
    | error fault => rfl
    | ok read => rfl

/-! ## The pieces of a source -/

theorem build_byte_class_digit {byte : UInt8} (h : is_ascii_digit byte = false) :
    build_byte_class byte &&& CLASS_DIGIT = 0 := by
  unfold build_byte_class
  rw [h]
  generalize lex_class.is_ascii_whitespace byte = whitespace
  generalize lex_class.is_identifier_start byte = start
  generalize lex_class.is_identifier_continue byte = continues
  generalize lex_class.is_operator byte = operator
  generalize lex_class.is_punctuation byte = punctuation
  revert whitespace start continues operator punctuation
  decide

/-- The tables the crate ships only add blanks to the standard one. -/
theorem asciiDigits_of_table
    (h : ∀ byte : UInt8, 0x80 ≤ byte → features.byte_classes.table byte = build_byte_class byte) :
    AsciiDigits features := by
  intro byte hbyte
  have hdigit : is_ascii_digit byte = false := by
    cases hdigit : is_ascii_digit byte with
    | true => exact absurd (is_ascii_digit_ascii hdigit) (UInt8.not_lt.mpr hbyte)
    | false => rfl
  unfold is_digit FeatureSet.has_byte_class ByteClasses.has_class ByteClasses.byte_class
  rw [h byte hbyte, build_byte_class_digit hdigit]
  rfl

theorem with_class_table {classes : ByteClasses} {other mask byte : UInt8} (h : byte ≠ other) :
    (classes.with_class other mask).table byte = classes.table byte := by
  simp [ByteClasses.with_class, beq_eq_false_iff_ne.mpr h]

theorem BuiltinDialect.wholeClasses (dialect : BuiltinDialect) :
    WholeClasses dialect.features := by
  refine .inl (asciiDigits_of_table fun byte hbyte => ?_)
  have hne : byte ≠ 0x0b := by
    rintro rfl
    exact absurd hbyte (by decide)
  cases dialect <;> first | rfl | exact with_class_table hne

theorem collect_all_tiles (hclasses : WholeClasses features) {source : List Char}
    {tokens : List Token} {ranges : List TriviaRange}
    (h : tokenize_with_trivia unicode source features = .ok (tokens, ranges)) :
    Tiles (Edge source) 0 (encode source).length
      (merged (tokens.map Token.ends) (ranges.map TriviaRange.ends)) := by
  unfold tokenize_with_trivia collect_all at h
  split at h
  · cases h
  · have hwithin : Within source (.new (encode source)) := Moves.refl _
    obtain ⟨read, ranges', rfl, rfl, htiles⟩ := collect_tiles hclasses _ hwithin
      (.inl (whole_encode source)) (Nat.lt_succ_self _) h
    exact htiles

/-- Tokens and trivia lie end to end from one end of the source to the other, and each of them
    starts and stops between two characters; whether the trivia is recorded changes nothing. -/
theorem tokenize_with_trivia_tiles (unicode : Unicode) (features : FeatureSet)
    (hclasses : WholeClasses features) (source : List Char) :
    tokenize_with unicode source features =
        (tokenize_with_trivia unicode source features).map Prod.fst ∧
      ∀ tokens ranges, tokenize_with_trivia unicode source features = .ok (tokens, ranges) →
        Tiles (Edge source) 0 (encode source).length
          (merged (tokens.map Token.ends) (ranges.map TriviaRange.ends)) :=
  ⟨tokenize_with_eq source features, fun _ _ h => collect_all_tiles hclasses h⟩

/-- The characters of ASCII alone, for sources without others. -/
def asciiLetters : Unicode := ⟨Char.isAlpha, Char.isAlphanum⟩

theorem tokenize_with_trivia_tiles_comment :
    tokenize_with_trivia asciiLetters "1 -- é".toList .ANSI =
        .ok ([⟨.Number, ⟨0, 1⟩⟩], [⟨.Whitespace, ⟨1, 2⟩⟩, ⟨.LineComment, ⟨2, 7⟩⟩]) ∧
      Tiles (Edge "1 -- é".toList) 0 (encode "1 -- é".toList).length
        (merged [(0, 1)] [(1, 2), (2, 7)]) := by
  have hread : tokenize_with_trivia asciiLetters "1 -- é".toList .ANSI =
      .ok ([⟨.Number, ⟨0, 1⟩⟩], [⟨.Whitespace, ⟨1, 2⟩⟩, ⟨.LineComment, ⟨2, 7⟩⟩]) := by
    decide +kernel
  exact ⟨hread, (tokenize_with_trivia_tiles asciiLetters .ANSI
    (BuiltinDialect.wholeClasses .Ansi) "1 -- é".toList).2 _ _ hread⟩

/-- A table that has the first byte of `é` for a digit and the second one for a blank. -/
def SPLIT_BYTE_CLASSES : ByteClasses :=
  (STANDARD_BYTE_CLASSES.with_class 0xc3 CLASS_DIGIT).with_class 0xa9 CLASS_WHITESPACE

/-- Under such a table a number takes half of a character, and a blank the other half. -/
theorem tokenize_with_trivia_splits :
    ¬ ∀ (unicode : Unicode) (features : FeatureSet) (source : List Char)
        (tokens : List Token) (ranges : List TriviaRange),
      tokenize_with_trivia unicode source features = .ok (tokens, ranges) →
        Tiles (Edge source) 0 (encode source).length
          (merged (tokens.map Token.ends) (ranges.map TriviaRange.ends)) := by
  intro h
  have hread : tokenize_with_trivia asciiLetters ['1', 'é']
      { FeatureSet.ANSI with byte_classes := SPLIT_BYTE_CLASSES } =
      .ok ([⟨.Number, ⟨0, 2⟩⟩], [⟨.Whitespace, ⟨2, 3⟩⟩]) := by
    decide +kernel
  have hpiece := (h _ _ _ _ _ hread).of_mem (p := (0, 2))
    (mem_merged.mpr (.inl List.mem_cons_self))
  have hinside : is_char_boundary (encode ['1', 'é']) 2 = false := by decide +kernel
  exact absurd hpiece.2.2.2.2 (by simp [Edge, hinside])

end squonk.tokenizer.scan
