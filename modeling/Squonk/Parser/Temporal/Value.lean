import Squonk.Parser.Temporal.Placed
import Squonk.Tokenizer.Stepwise

/-!
# The value of a temporal literal

The accessor has the span of the literal alone, and finds the value string again in its text. It
finds the one that was parsed exactly where it is findable, and then reads the value it has as a
string of its own.
-/

open squonk.ast.literal squonk.dialect squonk.document squonk.tokenizer squonk.tokenizer.scan
open tiling

namespace squonk.parser.temporal

/-! ## The tokens of a source -/

theorem ascends_of_pairwise {source : List Char} {pos : Nat} {tokens : List scan.Token}
    (hbounds : ∀ token ∈ tokens, pos ≤ token.span.start ∧ token.span.start < token.span.stop ∧
      Edge source token.span.start ∧ Edge source token.span.stop)
    (horder : tokens.Pairwise fun a b => a.span.stop ≤ b.span.start) :
    Ascends source pos tokens := by
  induction tokens generalizing pos with
  | nil => trivial
  | cons token rest ih =>
    obtain ⟨hpos, hlt, hstart, hstop⟩ := hbounds token List.mem_cons_self
    obtain ⟨hbehind, horder⟩ := List.pairwise_cons.mp horder
    refine ⟨hpos, hlt, hstart, hstop, ih (fun next hnext => ?_) horder⟩
    exact ⟨hbehind next hnext, (hbounds next (List.mem_cons_of_mem _ hnext)).2⟩

theorem ascends_of_tokenize {unicode : Unicode} {features : FeatureSet}
    (hclasses : WholeClasses features) {source : List Char} {tokens : List scan.Token}
    (h : tokenize_with unicode source features = .ok tokens) : Ascends source 0 tokens := by
  rw [tokenize_with_eq] at h
  obtain ⟨⟨tokens', ranges⟩, htrivia, rfl⟩ : ∃ read,
      tokenize_with_trivia unicode source features = .ok read ∧ read.1 = tokens := by
    cases htrivia : tokenize_with_trivia unicode source features with
    | error fault =>
      rw [htrivia] at h
      cases h
    | ok read =>
      rw [htrivia] at h
      cases h
      exact ⟨read, rfl, rfl⟩
  have htiles := collect_all_tiles hclasses htrivia
  have hpieces := sublist_merged_left (tokens'.map Token.ends) (ranges.map TriviaRange.ends)
  refine ascends_of_pairwise (fun token htoken => ?_) ?_
  · have hends := hpieces.subset (List.mem_map_of_mem htoken)
    obtain ⟨hpos, hlt, -, hstart, hstop⟩ := htiles.of_mem hends
    exact ⟨hpos, hlt, hstart, hstop⟩
  · exact List.pairwise_map.mp (htiles.pairwise.sublist hpieces)

/-- The parser behind some of the tokens. -/
def Position.behind (front rest : List scan.Token) : Position :=
  ⟨(front.getLast?.map (·.span)).getD ⟨0, 0⟩, rest⟩

theorem placed_behind {source : List Char} {front rest : List scan.Token}
    (h : Ascends source 0 (front ++ rest)) : Placed source (.behind front rest) := by
  have hbehind (pos : Nat) (front : List scan.Token) (preceding : Span)
      (hspan : preceding.start ≤ preceding.stop) (hpos : preceding.stop = pos)
      (hedge : Edge source pos) (h : Ascends source pos (front ++ rest)) :
      Placed source ⟨(front.getLast?.map (·.span)).getD preceding, rest⟩ := by
    induction front generalizing pos preceding with
    | nil =>
      subst hpos
      exact ⟨hspan, hedge, h⟩
    | cons token front ih =>
      obtain ⟨-, hlt, -, hstop, hrest⟩ := h
      have hplaced := ih token.span.stop token.span hlt.le rfl hstop hrest
      have hlast : ((token :: front).getLast?.map (·.span)).getD preceding =
          (front.getLast?.map (·.span)).getD token.span := by
        rw [List.getLast?_cons]
        cases front.getLast? <;> rfl
      rw [hlast]
      exact hplaced
  refine hbehind 0 front ⟨0, 0⟩ (Nat.le_refl _) rfl ?_ h
  show is_char_boundary (encode source) 0 = true
  simp [is_char_boundary, whole_encode]

/-! ## The text of the literal -/

section

variable {source : List Char}

theorem get_eq {start stop : Nat} (hle : start ≤ stop) (hstart : Edge source start)
    (hstop : Edge source stop) : get (encode source) ⟨start, stop⟩ =
      some (chars (((encode source).drop start).take (stop - start))) :=
  if_pos ⟨hle, hstart, hstop⟩

/-- The text of a span is that of its two parts. -/
theorem get_append {start between stop : Nat} (hle : start ≤ between) (hle' : between ≤ stop)
    (hstart : Edge source start) (hbetween : Edge source between) (hstop : Edge source stop)
    {front behind : List Char} (hfront : get (encode source) ⟨start, between⟩ = some front)
    (hbehind : get (encode source) ⟨between, stop⟩ = some behind) :
    get (encode source) ⟨start, stop⟩ = some (front ++ behind) := by
  rw [get_eq hle hstart hbetween] at hfront
  rw [get_eq hle' hbetween hstop] at hbehind
  obtain rfl := Option.some.inj hfront
  obtain rfl := Option.some.inj hbehind
  have hsplit : stop - start = (between - start) + (stop - between) := by omega
  rw [get_eq (hle.trans hle') hstart hstop, ← chars_append, hsplit, List.take_add, List.drop_drop,
    Nat.add_sub_cancel' hle]

theorem get_ne_nil {start stop : Nat} (hlt : start < stop) (hstart : Edge source start)
    (hstop : Edge source stop) {text : List Char}
    (h : get (encode source) ⟨start, stop⟩ = some text) : text ≠ [] := by
  rw [get_eq hlt.le hstart hstop] at h
  obtain rfl := Option.some.inj h
  simp only [Edge, is_char_boundary, Bool.and_eq_true, decide_eq_true_eq] at hstart hstop
  have hlength : start < (encode source).length := hlt.trans_le hstop.1
  obtain ⟨n, hn⟩ := Nat.exists_eq_add_of_lt hlt
  obtain ⟨c, hc⟩ : ∃ c, ((encode source)[start]).char = some c := by
    have hwhole := hstart.2
    rw [List.drop_eq_getElem_cons hlength, whole_cons] at hwhole
    exact Option.isSome_iff_exists.mp hwhole
  rw [List.drop_eq_getElem_cons hlength, show stop - start = n + 1 by omega, List.take_succ_cons]
  simp [chars, hc]

end

theorem source_text_eq {source : List SourceByte} {literal : Literal} {text : List Char}
    (hlt : literal.span.start < literal.span.stop) (h : get source literal.span = some text) :
    literal.source_text source = .ok text := by
  have hreal : literal.span.is_synthetic = false := by
    refine beq_eq_false_iff_ne.mpr fun heq => ?_
    rw [heq] at hlt
    exact absurd hlt (Nat.not_lt_zero _)
  unfold Literal.source_text
  rw [hreal, h, if_neg Bool.false_ne_true]

theorem string_value_ok {literal : Literal} {value : Value (List Char)} {text : List Char} :
    literal.string_value value = .ok text ↔ value = .ok text := by
  unfold Literal.string_value
  split <;> simp

/-- The literal of a value string of its own. -/
def string_literal (value : Span) : Literal := ⟨.String, value⟩

theorem as_str_iff {source : List SourceByte} {value : Span} {string text : List Char}
    (hlt : value.start < value.stop) (hget : get source value = some string) :
    (string_literal value).as_str source = .ok text ↔
      materialize_concatenated_string string false = .ok text := by
  unfold Literal.as_str Literal.as_str_in
  rw [source_text_eq hlt hget]
  exact string_value_ok

theorem as_temporal_text_iff {source : List SourceByte} {literal : Literal}
    {text token value : List Char} (hkind : literal.kind.is_temporal = true)
    (hlt : literal.span.start < literal.span.stop) (hget : get source literal.span = some text)
    (htoken : temporal_string_token text = some token) :
    literal.as_temporal_text source = .ok value ↔
      materialize_concatenated_string token false = .ok value := by
  unfold Literal.as_temporal_text
  rw [source_text_eq hlt hget, hkind]
  simp only [Literal.expect_kind, if_true, Except.mapError, bind, Except.bind, htoken]
  exact string_value_ok

/-! ## Literals of a source -/

/-- The text of a literal around its value string. -/
structure Around (source : List Char) (literal value : Span) where
  before : List Char
  string : List Char
  after : List Char
  get_before : get (encode source) ⟨literal.start, value.start⟩ = some before
  get_string : get (encode source) value = some string
  get_after : get (encode source) ⟨value.stop, literal.stop⟩ = some after

/-- The accessor finds the value string where the parser did, exactly where the string is findable,
    and then its value is the one that the string has alone. -/
theorem temporal_text_of_parsed {unicode : Unicode} {features : FeatureSet}
    (hclasses : WholeClasses features) {source : List Char} {front rest : List scan.Token}
    (htokens : tokenize_with unicode source features = .ok (front ++ rest))
    {syn : TemporalSyntax} {parse_expr : ParseResult Unit} {parse_float_as_decimal : Bool}
    {keyword : TemporalKeyword} {parsed : Parsed} {s' : Position} {value : Span}
    (hread : parse_temporal (encode source) syn parse_expr parse_float_as_decimal keyword
      (.behind front rest) = .ok (some parsed, s'))
    (hvalue : parsed.value = some value) :
    ∃ text : Around source parsed.literal.span value,
      parsed.literal.source_text (encode source) =
          .ok (text.before ++ (text.string ++ text.after)) ∧
        (temporal_string_place (text.before ++ (text.string ++ text.after)) =
            some (text.before.length, text.before.length + text.string.length) ↔
          Findable text.before text.string text.after) ∧
        (Findable text.before text.string text.after → ∀ x,
          parsed.literal.as_temporal_text (encode source) = .ok x ↔
            (string_literal value).as_str (encode source) = .ok x) := by
  have hplaced := placed_behind (ascends_of_tokenize hclasses htokens)
  obtain ⟨hkind, hstart, hlt, hstop, hedge, hedge₁, hedge₂, hedge₃⟩ :=
    parse_temporal_value hplaced hread hvalue
  have hbefore := get_eq hstart hedge hedge₁
  have hstring := get_eq hlt.le hedge₁ hedge₂
  have hafter := get_eq hstop hedge₂ hedge₃
  have hall := get_append hstart (hlt.le.trans hstop) hedge hedge₁ hedge₃ hbefore
    (get_append hlt.le hstop hedge₁ hedge₂ hedge₃ hstring hafter)
  have hwide : parsed.literal.span.start < parsed.literal.span.stop :=
    hstart.trans_lt (hlt.trans_le hstop)
  refine ⟨⟨_, _, _, hbefore, hstring, hafter⟩, source_text_eq hwide hall, ?_, fun hfind x => ?_⟩
  · exact temporal_string_place_iff (get_ne_nil hlt hedge₁ hedge₂ hstring)
  · rw [as_temporal_text_iff hkind hwide hall (temporal_string_token_of_findable hfind),
      as_str_iff hlt hstring]

/-- The flags of a dialect with the standard temporal literals. -/
def STANDARD_TEMPORAL : TemporalSyntax where
  typed_string_literals := true
  typed_interval_literal := true
  relaxed_interval_syntax := false
  same_line_adjacent_concat := false

/-! ## Sources that begin with a type -/

section
variable {source : List Char} {rest : List SourceByte}
  (hsource : encode source = encode "DATE ".toList ++ rest)
include hsource

theorem scan_date : scan.scan_token asciiLetters .ANSI (.new (encode source)) (ascii 'D') =
    .ok (⟨.Keyword 164, ⟨0, 4⟩⟩, ⟨4, (encode source).drop 4⟩) := by
  have hslot : interner.KEYWORDS[164]? = some "date" := by decide +kernel
  have hstop : eat_identifier_continue asciiLetters .ANSI
      ⟨1, (encode "DATE ".toList ++ rest).drop 1⟩ =
        .ok ⟨4, (encode "DATE ".toList ++ rest).drop 4⟩ := by
    rfl
  rw [hsource, scan_token_word rfl rfl rfl rfl]
  exact scan_word_keyword rfl hstop hslot rfl

theorem tokenize_date {value : scan.Token} (stop : Nat) (hshort : rest.length < 100)
    (hdate : skip_trivia .ANSI NoTrivia (encode source) (.new (encode source)) () ⟨none⟩ =
      .ok (.new (encode source), (), ⟨none⟩))
    (hvalue : next_token asciiLetters .ANSI NoTrivia (encode source) ⟨4, (encode source).drop 4⟩ ()
      ⟨none⟩ = .ok (some value, ⟨stop, []⟩, (), ⟨none⟩))
    (hend : next_token asciiLetters .ANSI NoTrivia (encode source) ⟨stop, []⟩ () ⟨none⟩ =
      .ok (none, ⟨stop, []⟩, (), ⟨none⟩)) :
    tokenize_with asciiLetters source .ANSI = .ok ([] ++ [⟨.Keyword 164, ⟨0, 4⟩⟩, value]) := by
  have hfive : (encode "DATE ".toList).length = 5 := rfl
  have hlength : (encode source).length = rest.length + 5 := by
    rw [hsource, List.length_append, hfive, Nat.add_comm]
  have hpeek : (Cursor.new (encode source)).peek = some (ascii 'D') := by
    rw [hsource]
    rfl
  have hchecked : check_nul (.new (encode source)) (⟨.Keyword 164, ⟨0, 4⟩⟩,
      ⟨4, (encode source).drop 4⟩) = .ok (⟨.Keyword 164, ⟨0, 4⟩⟩, ⟨4, (encode source).drop 4⟩) := rfl
  rw [tokenize_with, collect_all, if_neg (by omega), hlength,
    collect_some (next_token_eq hdate hpeek (scan_date hsource) hchecked), collect_some hvalue,
    collect_none hend]
  rfl

end

theorem temporal_text_of_parsed_date :
    ∃ text : Around "DATE '2020'".toList ⟨0, 11⟩ ⟨5, 11⟩,
      Findable text.before text.string text.after ∧
        (⟨.Date, ⟨0, 11⟩⟩ : Literal).as_temporal_text (encode "DATE '2020'".toList) =
          .ok "2020".toList := by
  have hsource : encode "DATE '2020'".toList = encode "DATE ".toList ++ encode "'2020'".toList := rfl
  have htokens : tokenize_with asciiLetters "DATE '2020'".toList .ANSI =
      .ok ([] ++ [⟨.Keyword 164, ⟨0, 4⟩⟩, ⟨.String, ⟨5, 11⟩⟩]) :=
    tokenize_date hsource 11 (by decide) (by decide +kernel) (by decide +kernel) (by decide +kernel)
  have hread : parse_temporal (encode "DATE '2020'".toList) STANDARD_TEMPORAL (pure ()) false .Date
      (.behind [] [⟨.Keyword 164, ⟨0, 4⟩⟩, ⟨.String, ⟨5, 11⟩⟩]) =
        .ok (some ⟨⟨.Date, ⟨0, 11⟩⟩, some ⟨5, 11⟩⟩, ⟨⟨5, 11⟩, []⟩) := rfl
  obtain ⟨text, -, -, hvalue⟩ :=
    temporal_text_of_parsed (BuiltinDialect.wholeClasses .Ansi) htokens hread rfl
  have hbefore : text.before = "DATE ".toList :=
    Option.some.inj (text.get_before.symm.trans (by decide +kernel))
  have hstring : text.string = "'2020'".toList :=
    Option.some.inj (text.get_string.symm.trans (by decide +kernel))
  have hafter : text.after = [] :=
    Option.some.inj (text.get_after.symm.trans (by decide +kernel))
  have hfind : Findable text.before text.string text.after := by
    rw [hbefore, hstring, hafter]
    exact .quoted (by simp [is_quote, is_dollar, single_quote]) rfl rfl rfl (by simp)
  exact ⟨text, hfind, (hvalue hfind _).mpr (by decide +kernel)⟩

/-- A quote in a comment between the type and the value string is taken for the string's own. -/
theorem comment_hides_value :
    ¬ ∀ (unicode : Unicode) (features : FeatureSet) (source : List Char)
        (front rest : List scan.Token),
      tokenize_with unicode source features = .ok (front ++ rest) →
      ∀ (syn : TemporalSyntax) (parse_expr : ParseResult Unit) (parse_float_as_decimal : Bool)
        (keyword : TemporalKeyword) (parsed : Parsed) (s' : Position) (value : Span),
      parse_temporal (encode source) syn parse_expr parse_float_as_decimal keyword
        (.behind front rest) = .ok (some parsed, s') → parsed.value = some value →
      ∃ x, parsed.literal.as_temporal_text (encode source) = .ok x ∧
        (string_literal value).as_str (encode source) = .ok x := by
  intro h
  have hsource : encode "DATE /*'*/'2020'".toList =
      encode "DATE ".toList ++ encode "/*'*/'2020'".toList := rfl
  have htokens : tokenize_with asciiLetters "DATE /*'*/'2020'".toList .ANSI =
      .ok ([] ++ [⟨.Keyword 164, ⟨0, 4⟩⟩, ⟨.String, ⟨10, 16⟩⟩]) :=
    tokenize_date hsource 16 (by decide) (by decide +kernel) (by decide +kernel) (by decide +kernel)
  have hread : parse_temporal (encode "DATE /*'*/'2020'".toList) STANDARD_TEMPORAL (pure ()) false
      .Date (.behind [] [⟨.Keyword 164, ⟨0, 4⟩⟩, ⟨.String, ⟨10, 16⟩⟩]) =
        .ok (some ⟨⟨.Date, ⟨0, 16⟩⟩, some ⟨10, 16⟩⟩, ⟨⟨10, 16⟩, []⟩) := rfl
  obtain ⟨x, hx, -⟩ := h asciiLetters .ANSI _ _ _ htokens _ _ _ _ _ _ _ hread rfl
  have hinvalid : (⟨.Date, ⟨0, 16⟩⟩ : Literal).as_temporal_text
      (encode "DATE /*'*/'2020'".toList) = .error (.error ⟨.InvalidString, ⟨0, 16⟩⟩) := by
    decide +kernel
  rw [hinvalid] at hx
  cases hx

end squonk.parser.temporal
