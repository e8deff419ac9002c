import Squonk.Tokenizer.Lossless
import Squonk.Tokenizer.Reading

/-!
# Contentions

Which readings contend for the same place in a source where the registry of conflicts finds
nothing: what each reading can start with, and the contentions the registry does not know of.
-/

open squonk.dialect squonk.dialect.lex_class

namespace squonk.tokenizer.scan

/-! ## Declared pairs -/

/-- What may be read as a name beside the lexemes that a name's first byte leads otherwise. -/
def declared_beside_word (byte : UInt8) : Reading → Bool
  | .UnicodeString | .UnicodeIdent | .CharsetString => true
  | .PositionalColumn | .Operator => byte == ascii '#'
  | _ => false

/-- The pairs that the documentation of the registry takes to be told apart by what follows their
    first byte. -/
inductive Declared (cursor : Cursor) (byte : UInt8) : Reading → Reading → Prop
  | dollar {r s : Reading} (hbyte : byte = ascii '$')
      (hr : r ∈ [Reading.Money, .Parameter, .DollarQuotedString])
      (hs : s ∈ [Reading.Money, .Parameter, .DollarQuotedString]) : Declared cursor byte r s
  | unicode : Declared cursor byte .UnicodeString .UnicodeIdent
  | word {r : Reading} (h : declared_beside_word byte r = true) : Declared cursor byte r .Word
  | at_question {r : Reading} (hbyte : byte = ascii '@')
      (hquestion : cursor.peek_nth 1 = some (ascii '?'))
      (hr : r ∈ [Reading.StageReference, .SessionVariable, .Parameter]) :
      Declared cursor byte r .Operator

section
variable (unicode : Unicode) (features : FeatureSet)

/-- Two readings of one place in a source are one and the same, or a declared pair. -/
def Exhaustive : Prop :=
  ∀ (cursor : Cursor) (byte : UInt8), IsText cursor.rest → cursor.peek = some byte →
    ∀ r s : Reading, r.applies unicode features cursor byte = true →
      s.applies unicode features cursor byte = true →
        r = s ∨ Declared cursor byte r s ∨ Declared cursor byte s r

/-! ## Triggers -/

/-- Whether a name can start with some character. -/
def NameStarts : Prop := ∃ c : Char, is_identifier_start unicode features c = true

/-- The readings that a byte can lead, told from the features alone. -/
inductive Leads : Reading → UInt8 → Prop
  | hash_comment (h : features.comment_syntax.line_comment_hash = true) :
    Leads .HashComment (ascii '#')
  | versioned_comment (h : features.comment_syntax.versioned_comments.isSome = true) :
    Leads .VersionedComment (ascii '/')
  | escape_string {byte : UInt8} (hbyte : byte ∈ [ascii 'E', ascii 'e'])
      (h : features.string_literals.escape_strings = true) : Leads .EscapeString byte
  | national_string {byte : UInt8} (hbyte : byte ∈ [ascii 'N', ascii 'n'])
      (h : features.string_literals.national_strings = true) : Leads .NationalString byte
  | unicode_string {byte : UInt8} (hbyte : byte ∈ [ascii 'U', ascii 'u'])
      (h : features.string_literals.unicode_strings = true) : Leads .UnicodeString byte
  | unicode_ident {byte : UInt8} (hbyte : byte ∈ [ascii 'U', ascii 'u'])
      (h : features.string_literals.unicode_strings = true) : Leads .UnicodeIdent byte
  | hex_blob {byte : UInt8} (hbyte : byte ∈ [ascii 'X', ascii 'x'])
      (h : features.string_literals.blob_literals = true) : Leads .HexBlob byte
  | bit_string {byte : UInt8} (hbyte : byte ∈ [ascii 'B', ascii 'b', ascii 'X', ascii 'x'])
      (h : features.string_literals.bit_string_literals = true) : Leads .BitString byte
  | charset_string (h : features.string_literals.charset_introducers = true) (c close : Char)
      (hc : c.toNat < 0x80)
      (hname : features.has_byte_class (ascii c) CLASS_IDENTIFIER_CONTINUE = true)
      (hclose : close = single_quote ∨
        close = '"' ∧ features.string_literals.double_quoted_strings = true)
      (hend : features.has_byte_class (ascii close) CLASS_IDENTIFIER_CONTINUE = false) :
    Leads .CharsetString (ascii '_')
  | double_quoted_string (h : features.string_literals.double_quoted_strings = true) :
    Leads .DoubleQuotedString (ascii '"')
  | quoted_ident {byte : UInt8} (h : (opening_identifier_quote features byte).isSome = true) :
    Leads .QuotedIdent byte
  | money (h : features.numeric_literals.money_literals = true) (c : SourceByte)
      (rest : List SourceByte) (htext : IsText (c :: rest)) (hwhole : c.char.isSome = true)
      (hdigit : is_digit features c.byte = true) : Leads .Money (ascii '$')
  | positional_dollar (h : features.parameters.positional_dollar = true) :
    Leads .Parameter (ascii '$')
  | named_dollar (h : features.parameters.named_dollar = true)
      (hname : NameStarts unicode features) : Leads .Parameter (ascii '$')
  | anonymous_question (h : features.parameters.anonymous_question = true) :
    Leads .Parameter (ascii '?')
  | numbered_question (h : features.parameters.numbered_question = true) :
    Leads .Parameter (ascii '?')
  | named_colon (h : features.parameters.named_colon = true)
      (hname : NameStarts unicode features) : Leads .Parameter (ascii ':')
  | named_at (h : features.parameters.named_at = true)
      (hname : NameStarts unicode features) : Leads .Parameter (ascii '@')
  | dollar_quoted_string (h : features.string_literals.dollar_quoted_strings = true) :
    Leads .DollarQuotedString (ascii '$')
  | stage_reference (h : features.utility_syntax.stage_references = true) :
    Leads .StageReference (ascii '@')
  | system_variable (h : features.session_variables.system_variables = true)
      (hname : NameStarts unicode features) : Leads .SessionVariable (ascii '@')
  | user_variable (h : features.session_variables.user_variables = true)
      (hname : NameStarts unicode features) : Leads .SessionVariable (ascii '@')
  | word (b : SourceByte) (rest : List SourceByte) (htext : IsText (b :: rest))
      (h : features.has_byte_class b.byte CLASS_IDENTIFIER_START = true) : Leads .Word b.byte
  | word_char (b : SourceByte) (rest : List SourceByte) (c : Char) (htext : IsText (b :: rest))
      (hbyte : 0x80 ≤ b.byte) (hchar : b.char = some c)
      (hstart : is_identifier_start unicode features c = true) : Leads .Word b.byte
  | word_underscore (h : features.string_literals.charset_introducers = true) :
    Leads .Word (ascii '_')
  | positional_column (h : features.expression_syntax.positional_column = true) :
    Leads .PositionalColumn (ascii '#')
  | jsonb_question (h : features.operator_syntax.jsonb_operators = true) :
    Leads .Operator (ascii '?')
  | containment_at (h : features.operator_syntax.containment_operators = true) :
    Leads .Operator (ascii '@')
  | jsonb_at (h : features.operator_syntax.jsonb_operators = true) : Leads .Operator (ascii '@')
  | custom_at (h : features.operator_syntax.custom_operators = true) :
    Leads .Operator (ascii '@')
  | xor (h : features.hash_bitwise_xor = true) : Leads .Operator (ascii '#')
  | custom_backtick (h : features.operator_syntax.custom_operators = true) :
    Leads .Operator (ascii '`')
  | operator {byte : UInt8} (h : features.has_byte_class byte CLASS_OPERATOR = true) :
    Leads .Operator byte

/-- The contentions that the registry does not know of. -/
inductive Untracked : Prop
  /-- A delimiter of names leads another reading. -/
  | quote (byte : UInt8) (r : Reading) (hquote : Leads unicode features .QuotedIdent byte)
      (hr : Leads unicode features r byte) (hne : r ≠ .QuotedIdent)
  /-- What starts names leads another reading. -/
  | word (byte : UInt8) (r : Reading) (hword : Leads unicode features .Word byte)
      (hr : Leads unicode features r byte) (hne : r ≠ .Word)
      (hdeclared : declared_beside_word byte r = false)
  /-- A byte of the operator class leads another reading. -/
  | operator (byte : UInt8) (r : Reading)
      (hoperator : features.has_byte_class byte CLASS_OPERATOR = true)
      (hr : Leads unicode features r byte) (hne : r ≠ .Operator) (hword : r ≠ .Word)
      (hat : byte ≠ ascii '@')
  | operator_system_variable
      (hoperator : features.has_byte_class (ascii '@') CLASS_OPERATOR = true)
      (h : features.session_variables.system_variables = true)
      (hname : NameStarts unicode features)
  | operator_at_name
      (hoperator : features.has_byte_class (ascii '@') CLASS_OPERATOR = true)
      (h : (features.session_variables.user_variables || features.parameters.named_at) = true)
      (c : Char) (hc : c ≠ '?') (hname : is_identifier_start unicode features c = true)
  | operator_stage
      (hoperator : (features.operator_syntax.custom_operators ||
        features.has_byte_class (ascii '@') CLASS_OPERATOR) = true)
      (h : features.utility_syntax.stage_references = true)
  | blob_bit_string (hblob : features.string_literals.blob_literals = true)
      (hbit : features.string_literals.bit_string_literals = true)
  | stage_at_name (hstage : features.utility_syntax.stage_references = true)
      (h : (features.session_variables.user_variables || features.parameters.named_at) = true)
      (hname : NameStarts unicode features)
  | stage_contained (hstage : features.utility_syntax.stage_references = true)
      (h : features.operator_syntax.containment_operators = true)
      (hname : is_identifier_start unicode features '>' = true)
  | numbered_jsonb (hnumbered : features.parameters.numbered_question = true)
      (hjsonb : features.operator_syntax.jsonb_operators = true)

end

/-! ## What a reading needs -/

theorem encode_char_ascii {c : Char} (h : c.toNat < 0x80) : encode_char c = [⟨ascii c, some c⟩] := by
  have hval : c.val.toNat ≤ 0x7f := Nat.le_of_lt_succ h
  have hencode : String.utf8EncodeChar c = [ascii c] := by
    unfold String.utf8EncodeChar
    simp only [hval, if_true]
    rfl
  unfold encode_char
  rw [hencode]
  rfl

theorem encode_ascii {c : Char} (source : List Char) (h : c.toNat < 0x80) :
    encode (c :: source) = ⟨ascii c, some c⟩ :: encode source := by
  rw [encode_cons, encode_char_ascii h]
  rfl

/-- The first byte of an ASCII character is all of it. -/
theorem byte_of_char {b : SourceByte} {rest : List SourceByte} {c : Char}
    (htext : IsText (b :: rest)) (hchar : b.char = some c) (hc : c.toNat < 0x80) :
    b.byte = ascii c := by
  obtain ⟨c', source, heq⟩ | ⟨hnone, -⟩ := htext.byte_cases
  · obtain ⟨first, others, hencode, -⟩ := encode_char_eq c'
    have hhead : b = ⟨first, some c'⟩ := by
      rw [hencode] at heq
      simpa using (List.cons.inj heq).1
    obtain rfl : c' = c := by simpa [hhead] using hchar
    rw [encode_char_ascii hc] at heq
    exact congrArg SourceByte.byte (List.cons.inj heq).1
  · simp [hnone] at hchar

theorem ascii_inj {c d : Char} (hc : c.toNat < 0x80) (hd : d.toNat < 0x80)
    (h : ascii c = ascii d) : c = d := by
  have hnat : (UInt8.ofNat c.toNat).toNat = (UInt8.ofNat d.toNat).toNat := congrArg UInt8.toNat h
  rw [UInt8.toNat_ofNat', UInt8.toNat_ofNat'] at hnat
  exact Char.toNat_inj.mp (by omega)

/-- An ASCII byte is a character. -/
theorem char_of_byte {b : SourceByte} {rest : List SourceByte} {c : Char}
    (htext : IsText (b :: rest)) (hc : c.toNat < 0x80) (hbyte : b.byte = ascii c) :
    b.char = some c := by
  obtain ⟨c', source, heq⟩ | ⟨-, hcontinuation⟩ := htext.byte_cases
  · obtain ⟨first, others, hencode, hsize, hothers, -⟩ := encode_char_eq c'
    have hhead : b = ⟨first, some c'⟩ := by
      rw [hencode] at heq
      simpa using (List.cons.inj heq).1
    have hfirst : first = ascii c := by rw [← hbyte, hhead]
    have hascii : c'.toNat < 0x80 := by
      rw [hothers (by rw [hfirst]; exact ascii_lt hc), List.length_nil] at hsize
      have hvalue : c'.val ≤ 127 := Char.utf8Size_eq_one_iff.mp hsize.symm
      exact Nat.lt_succ_of_le (UInt32.le_iff_toNat_le.mp hvalue)
    have hsame : ascii c' = ascii c := by
      rw [encode_char_ascii hascii] at hencode
      rw [← hfirst]
      exact congrArg SourceByte.byte (List.cons.inj hencode).1
    rw [hhead, ascii_inj hascii hc hsame]
  · rw [hbyte] at hcontinuation
    simp only [is_continuation, Bool.and_eq_true, decide_eq_true_eq] at hcontinuation
    exact absurd (ascii_lt hc) (UInt8.not_lt.mpr hcontinuation.1)

section
variable {unicode : Unicode} {features : FeatureSet} {cursor : Cursor} {byte : UInt8}

theorem char_at_of_peek {n : Nat} {c : Char} (htext : IsText cursor.rest) (hc : c.toNat < 0x80)
    (hpeek : cursor.peek_nth n = some (ascii c)) : cursor.char_at n = some c := by
  obtain ⟨b, hb, hbyte⟩ := Option.map_eq_some_iff.mp hpeek
  obtain ⟨hn, hget⟩ := List.getElem?_eq_some_iff.mp hb
  have hdrop : cursor.rest.drop n = b :: cursor.rest.drop (n + 1) := by
    rw [← hget]
    exact List.drop_eq_getElem_cons hn
  have hbehind : IsText (b :: cursor.rest.drop (n + 1)) := by
    rw [← hdrop]
    exact htext.of_suffix (List.drop_suffix n cursor.rest)
  unfold Cursor.char_at
  rw [hb]
  exact char_of_byte hbehind hc hbyte

theorem peek_of_char_at {n : Nat} {c : Char} (htext : IsText cursor.rest) (hc : c.toNat < 0x80)
    (hchar : cursor.char_at n = some c) : cursor.peek_nth n = some (ascii c) := by
  obtain ⟨b, hb, hbchar⟩ := Option.bind_eq_some_iff.mp hchar
  obtain ⟨hn, hget⟩ := List.getElem?_eq_some_iff.mp hb
  have hdrop : cursor.rest.drop n = b :: cursor.rest.drop (n + 1) := by
    rw [← hget]
    exact List.drop_eq_getElem_cons hn
  have hbehind : IsText (b :: cursor.rest.drop (n + 1)) := by
    rw [← hdrop]
    exact htext.of_suffix (List.drop_suffix n cursor.rest)
  unfold Cursor.peek_nth
  rw [hb, ← byte_of_char hbehind hbchar hc]
  rfl

theorem nameStarts_of_starts_at {n : Nat}
    (h : identifier_starts_at unicode features cursor n = true) : NameStarts unicode features := by
  obtain ⟨c, -, hc⟩ := (Option.any_eq_true _ _).mp h
  exact ⟨c, hc⟩

theorem marker_mem {c : Char} (h : (byte == ascii c || byte == ascii c.toLower) = true) :
    byte ∈ [ascii c, ascii c.toLower] := by
  simpa using h

/-- A digit stands where money follows. -/
theorem Leads.of_money_follows (htext : IsText cursor.rest) (hpeek : cursor.peek = some (ascii '$'))
    (hmoney : features.numeric_literals.money_literals = true)
    (h : money_follows features cursor = true) : Leads unicode features .Money (ascii '$') := by
  obtain ⟨pos, rest⟩ := cursor
  obtain _ | ⟨dollar, rest⟩ := rest
  · cases hpeek
  have hdollar : dollar.byte < 0x80 := by
    rw [show dollar.byte = ascii '$' from Option.some.inj hpeek]
    decide
  have hbehind : IsText rest := htext.of_suffix (List.suffix_cons _ _)
  have hwhole := (htext.ascii hdollar).2
  obtain _ | ⟨b, rest⟩ := rest
  · simp [money_follows, Cursor.peek_nth] at h
  simp only [money_follows, Cursor.peek_nth, Bool.or_eq_true, Bool.and_eq_true, beq_iff_eq] at h
  obtain hdigit | ⟨hdot, hdigit⟩ := h
  · exact .money hmoney b rest hbehind hwhole (by simpa using hdigit)
  · have hb : b.byte < 0x80 := by
      rw [show b.byte = ascii '.' by simpa using hdot]
      decide
    have hnext := (hbehind.ascii hb).2
    obtain _ | ⟨b', rest⟩ := rest
    · simp at hdigit
    · exact .money hmoney b' rest (hbehind.of_suffix (List.suffix_cons _ _)) hnext
        (by simpa using hdigit)

/-- What stops a run does not belong to it. -/
theorem not_of_getElem?_takeWhile {α : Type} {p : α → Bool} {l : List α} {a : α}
    (h : l[(l.takeWhile p).length]? = some a) : p a = false := by
  have hstop := List.head?_dropWhile_not p l
  have hbehind : (l.takeWhile p ++ l.dropWhile p)[(l.takeWhile p).length]? = some a := by
    rw [List.takeWhile_append_dropWhile]
    exact h
  rw [List.getElem?_append_right (Nat.le_refl _), Nat.sub_self, ← List.head?_eq_getElem?] at hbehind
  rw [hbehind] at hstop
  simpa using hstop

theorem ascii_of_byte {b : SourceByte} (h : b.byte < 0x80) :
    ascii (Char.ofNat b.byte.toNat) = b.byte ∧ (Char.ofNat b.byte.toNat).toNat < 0x80 := by
  have hlt : b.byte.toNat < 128 := UInt8.lt_iff_toNat_lt.mp h
  have hvalid : b.byte.toNat.isValidChar := .inl (by omega)
  have hnat : (Char.ofNat b.byte.toNat).toNat = b.byte.toNat := by
    rw [Char.ofNat, dif_pos hvalid]
    rfl
  constructor
  · show (Char.ofNat b.byte.toNat).toNat.toUInt8 = b.byte
    rw [hnat]
    exact UInt8.ofNat_toNat
  · omega

/-- A name and a quote stand where a character set is introduced. -/
theorem Leads.of_charset (hcharset : features.string_literals.charset_introducers = true)
    (h : ( charset_introducer_prefix features cursor).isSome = true) :
    Leads unicode features .CharsetString (ascii '_') := by
  let in_name (b : SourceByte) : Bool :=
    b.byte < 0x80 && features.has_byte_class b.byte CLASS_IDENTIFIER_CONTINUE
  let behind := cursor.rest.drop 1
  have hstop {close : Char} (hclose : close.toNat < 0x80)
      (hpeek : (cursor.peek_nth ((behind.takeWhile in_name).length + 1) == some (ascii close)) =
        true) : features.has_byte_class (ascii close) CLASS_IDENTIFIER_CONTINUE = false := by
    obtain ⟨b, hb, hbyte⟩ := Option.map_eq_some_iff.mp (beq_iff_eq.mp hpeek)
    have hget : behind[(behind.takeWhile in_name).length]? = some b := by
      rw [List.getElem?_drop, Nat.add_comm]
      exact hb
    have hnot := not_of_getElem?_takeWhile hget
    simpa [in_name, hbyte, ascii_lt hclose] using hnot
  unfold charset_introducer_prefix at h
  dsimp only at h
  split at h
  · cases h
  rename_i hname
  have hnonempty : behind.takeWhile in_name ≠ [] := fun hnil => hname (List.isEmpty_iff.mpr hnil)
  obtain ⟨b, name, hrun⟩ := List.exists_cons_of_ne_nil hnonempty
  have hb : in_name b = true :=
    List.mem_takeWhile_imp (p := in_name) (l := behind) (by rw [hrun]; exact List.mem_cons_self)
  simp only [in_name, Bool.and_eq_true, decide_eq_true_eq] at hb
  obtain ⟨hbyte, hascii⟩ := ascii_of_byte hb.1
  have hcontinue : features.has_byte_class (ascii (Char.ofNat b.byte.toNat))
      CLASS_IDENTIFIER_CONTINUE = true := by
    rw [hbyte]
    exact hb.2
  split at h
  · rename_i hquote
    exact .charset_string hcharset _ single_quote hascii hcontinue (.inl rfl)
      (hstop (by decide) hquote)
  split at h
  · rename_i hquote
    rw [Bool.and_eq_true] at hquote
    exact .charset_string hcharset _ '"' hascii hcontinue (.inr ⟨rfl, hquote.2⟩)
      (hstop (by decide) hquote.1)
  · cases h

/-- A reading applies only at a byte that can lead it. -/
theorem leads_of_applies {r : Reading} (htext : IsText cursor.rest) (hpeek : cursor.peek = some byte)
    (h : r.applies unicode features cursor byte = true) : Leads unicode features r byte := by
  unfold Reading.applies at h
  cases r <;> simp only [Bool.and_eq_true, Bool.or_eq_true, beq_iff_eq] at h
  case HashComment =>
    obtain ⟨rfl, hhash⟩ := h
    exact .hash_comment hhash
  case VersionedComment =>
    obtain ⟨⟨⟨rfl, hversioned⟩, -⟩, -⟩ := h
    exact .versioned_comment hversioned
  case EscapeString => exact .escape_string (marker_mem (by simpa using h.1.1)) h.1.2
  case NationalString => exact .national_string (marker_mem (by simpa using h.1.1)) h.1.2
  case UnicodeString => exact .unicode_string (marker_mem (by simpa using h.1.1.1)) h.1.1.2
  case UnicodeIdent => exact .unicode_ident (marker_mem (by simpa using h.1.1.1)) h.1.1.2
  case HexBlob => exact .hex_blob (marker_mem (by simpa using h.1.1)) h.1.2
  case BitString =>
    refine .bit_string ?_ h.1.2
    obtain hb | hx := h.1.1
    · exact List.mem_append_left [ascii 'X', ascii 'x'] (marker_mem (by simpa using hb))
    · exact List.mem_append_right [ascii 'B', ascii 'b'] (marker_mem (by simpa using hx))
  case CharsetString =>
    obtain ⟨⟨rfl, hcharset⟩, hprefix⟩ := h
    exact .of_charset hcharset hprefix
  case DoubleQuotedString =>
    obtain ⟨rfl, hquoted⟩ := h
    exact .double_quoted_string hquoted
  case QuotedIdent => exact .quoted_ident h
  case Money =>
    obtain ⟨⟨rfl, hmoney⟩, hfollows⟩ := h
    exact .of_money_follows htext hpeek hmoney hfollows
  case Parameter =>
    obtain ((⟨rfl, hdollar⟩ | ⟨rfl, hquestion⟩) | ⟨⟨rfl, hcolon⟩, hname⟩) | ⟨⟨rfl, hat⟩, hname⟩ := h
    · obtain ⟨hpositional, -⟩ | ⟨hnamed, hname⟩ := hdollar
      · exact .positional_dollar hpositional
      · exact .named_dollar hnamed (nameStarts_of_starts_at hname)
    · obtain hanonymous | ⟨hnumbered, -⟩ := hquestion
      · exact .anonymous_question hanonymous
      · exact .numbered_question hnumbered
    · exact .named_colon hcolon (nameStarts_of_starts_at hname)
    · exact .named_at hat (nameStarts_of_starts_at hname)
  case DollarQuotedString =>
    obtain ⟨rfl, hquoted⟩ := h
    exact .dollar_quoted_string hquoted
  case StageReference =>
    obtain ⟨⟨rfl, hstage⟩, -⟩ := h
    exact .stage_reference hstage
  case SessionVariable =>
    obtain ⟨rfl, ⟨⟨hsystem, -⟩, hname⟩ | ⟨huser, hname⟩⟩ := h
    · exact .system_variable hsystem (nameStarts_of_starts_at hname)
    · exact .user_variable huser (nameStarts_of_starts_at hname)
  case Word =>
    obtain ⟨pos, rest⟩ := cursor
    obtain _ | ⟨b, rest⟩ := rest
    · cases hpeek
    obtain rfl : b.byte = byte := Option.some.inj hpeek
    obtain (hstart | ⟨hbyte, hstart⟩) | ⟨⟨hunderscore, hcharset⟩, -⟩ := h
    · exact .word b rest htext hstart
    · obtain ⟨c, hchar, hc⟩ := (Option.any_eq_true _ _).mp hstart
      exact .word_char b rest c htext (by simpa using hbyte) hchar hc
    · rw [hunderscore]
      exact .word_underscore hcharset
  case PositionalColumn =>
    obtain ⟨⟨rfl, hpositional⟩, -⟩ := h
    exact .positional_column hpositional
  case Operator =>
    obtain (((⟨rfl, hjsonb⟩ | ⟨rfl, hat⟩) | ⟨rfl, hxor⟩) | ⟨rfl, hcustom⟩) | hclass := h
    · exact .jsonb_question hjsonb
    · obtain (⟨hcontainment, -⟩ | ⟨hjsonb, -⟩) | hcustom := hat
      · exact .containment_at hcontainment
      · exact .jsonb_at hjsonb
      · exact .custom_at hcustom
    · exact .xor hxor
    · exact .custom_backtick hcustom
    · exact .operator hclass

/-! ## Where a reading applies -/

/-- The start of a text. -/
def at_start (source : List Char) : Cursor := .new (encode source)

/-- Some text starts with the byte and is open to the reading. -/
def Occurs (unicode : Unicode) (features : FeatureSet) (r : Reading) (byte : UInt8) : Prop :=
  ∃ cursor : Cursor, IsText cursor.rest ∧ cursor.peek = some byte ∧
    r.applies unicode features cursor byte = true

theorem peek_at_start {c : Char} (source : List Char) (hc : c.toNat < 0x80) :
    (at_start (c :: source)).peek = some (ascii c) := by
  simp [at_start, encode_ascii source hc, Cursor.new, Cursor.peek, Cursor.peek_nth]

theorem peek_second (lead c : Char) (source : List Char) (hlead : lead.toNat < 0x80)
    (hc : c.toNat < 0x80) : (at_start (lead :: c :: source)).peek_nth 1 = some (ascii c) := by
  simp [at_start, encode_ascii _ hlead, encode_ascii _ hc, Cursor.new, Cursor.peek_nth]

theorem digit_second (lead : Char) (hlead : lead.toNat < 0x80) :
    ((at_start [lead, '1']).peek_nth 1).any is_ascii_digit = true := by
  rw [peek_second lead '1' [] hlead (by decide)]
  decide

theorem Occurs.at_start {r : Reading} (c : Char) (source : List Char) (hc : c.toNat < 0x80)
    (h : r.applies unicode features (at_start (c :: source)) (ascii c) = true) :
    Occurs unicode features r (ascii c) :=
  ⟨_, isText_encode _, peek_at_start source hc, h⟩

theorem char_at_encode (c : Char) (source : List Char) :
    (encode (c :: source))[0]?.bind (·.char) = some c := by
  obtain ⟨first, others, hencode, -⟩ := encode_char_eq c
  rw [encode_cons, hencode]
  rfl

theorem starts_at_second (lead : Char) {c : Char} (hlead : lead.toNat < 0x80)
    (hc : is_identifier_start unicode features c = true) :
    identifier_starts_at unicode features (at_start [lead, c]) 1 = true := by
  have hchar : (at_start [lead, c]).char_at 1 = some c := by
    simpa [at_start, encode_ascii _ hlead, Cursor.new, Cursor.char_at] using char_at_encode c []
  simp [identifier_starts_at, hchar, hc]

theorem starts_at_third (lead second : Char) {c : Char} (hlead : lead.toNat < 0x80)
    (hsecond : second.toNat < 0x80) (hc : is_identifier_start unicode features c = true) :
    identifier_starts_at unicode features (at_start [lead, second, c]) 2 = true := by
  have hchar : (at_start [lead, second, c]).char_at 2 = some c := by
    simpa [at_start, encode_ascii _ hlead, encode_ascii _ hsecond, Cursor.new, Cursor.char_at]
      using char_at_encode c []
  simp [identifier_starts_at, hchar, hc]

theorem Occurs.marked {r : Reading} (upper lower : Char) (source : List Char)
    (hupper : upper.toNat < 0x80) (hlower : lower.toNat < 0x80)
    (happlies : ∀ c ∈ [upper, lower],
      r.applies unicode features (scan.at_start (c :: source)) (ascii c) = true)
    (hbyte : byte ∈ [ascii upper, ascii lower]) : Occurs unicode features r byte := by
  simp only [List.mem_cons, List.not_mem_nil, or_false] at hbyte
  obtain rfl | rfl := hbyte
  · exact .at_start upper source hupper (happlies upper (by simp))
  · exact .at_start lower source hlower (happlies lower (by simp))

theorem opening_identifier_quote_ascii
    (h : (opening_identifier_quote features byte).isSome = true) :
    ∃ c : Char, c.toNat < 0x80 ∧ byte = ascii c := by
  obtain ⟨close, hclose⟩ := Option.isSome_iff_exists.mp h
  obtain ⟨⟨opening, closing⟩, -, hquotes⟩ := List.exists_of_findSome?_eq_some hclose
  dsimp only at hquotes
  split at hquotes
  · rename_i hascii
    simp only [Bool.and_eq_true, decide_eq_true_eq, beq_iff_eq] at hascii
    exact ⟨opening, hascii.1.1, hascii.1.2.symm⟩
  · cases hquotes

theorem exists_ascii (hbyte : byte < 0x80) : ∃ c : Char, c.toNat < 0x80 ∧ byte = ascii c := by
  obtain ⟨hascii, hlt⟩ := ascii_of_byte (b := ⟨byte, none⟩) hbyte
  exact ⟨_, hlt, hascii.symm⟩

/-- Behind a dollar sign stands the digit that money follows. -/
theorem Occurs.money (hmoney : features.numeric_literals.money_literals = true) {c : SourceByte}
    {rest : List SourceByte} (htext : IsText (c :: rest)) (hwhole : c.char.isSome = true)
    (hdigit : is_digit features c.byte = true) :
    Occurs unicode features .Money (ascii '$') := by
  obtain ⟨d, source, heq⟩ | ⟨hnone, -⟩ := htext.byte_cases
  · have hrest : encode ('$' :: d :: source) = ⟨ascii '$', some '$'⟩ :: c :: rest := by
      rw [encode_ascii _ (by decide), encode_cons, heq]
    refine .at_start '$' (d :: source) (by decide) ?_
    simp [Reading.applies, money_follows, scan.at_start, hrest, Cursor.new, Cursor.peek_nth, hmoney,
      hdigit]
  · simp [hnone] at hwhole

theorem Occurs.charset (hcharset : features.string_literals.charset_introducers = true)
    {c close : Char} (hc : c.toNat < 0x80)
    (hname : features.has_byte_class (ascii c) CLASS_IDENTIFIER_CONTINUE = true)
    (hclose : close = single_quote ∨
      close = '"' ∧ features.string_literals.double_quoted_strings = true)
    (hend : features.has_byte_class (ascii close) CLASS_IDENTIFIER_CONTINUE = false) :
    Occurs unicode features .CharsetString (ascii '_') := by
  have hascii : close.toNat < 0x80 := by
    obtain rfl | ⟨rfl, -⟩ := hclose <;> decide
  have hrest : (scan.at_start ['_', c, close]).rest =
      [⟨ascii '_', some '_'⟩, ⟨ascii c, some c⟩, ⟨ascii close, some close⟩] := by
    show encode ['_', c, close] = _
    rw [encode_ascii _ (by decide), encode_ascii _ hc, encode_ascii _ hascii]
    rfl
  have hprefix : ( charset_introducer_prefix features (scan.at_start ['_', c, close])).isSome = true := by
    obtain rfl | ⟨rfl, hdouble⟩ := hclose
    · simp [ charset_introducer_prefix, hrest, Cursor.peek_nth, ascii_lt hc, hname, hend]
    · have hne : ascii '"' ≠ ascii single_quote := by decide
      simp [ charset_introducer_prefix, hrest, Cursor.peek_nth, ascii_lt hc, hname, hend, hdouble,
        hne]
  exact .at_start '_' [c, close] (by decide) (by simp [Reading.applies, hcharset, hprefix])

/-- Each byte that can lead a reading leads it in some text. -/
theorem Leads.occurs {r : Reading} (h : Leads unicode features r byte) (hbyte : byte < 0x80) :
    Occurs unicode features r byte := by
  cases h with
  | hash_comment h => exact .at_start '#' [] (by decide) (by simp [Reading.applies, h])
  | versioned_comment h =>
    exact .at_start '/' ['*', '!'] (by decide) (by simp [Reading.applies, h]; decide)
  | escape_string hmarker h =>
    refine .marked 'E' 'e' [single_quote] (by decide) (by decide) ?_ hmarker
    simp [Reading.applies, h]
    decide
  | national_string hmarker h =>
    refine .marked 'N' 'n' [single_quote] (by decide) (by decide) ?_ hmarker
    simp [Reading.applies, h]
    decide
  | unicode_string hmarker h =>
    refine .marked 'U' 'u' ['&', single_quote] (by decide) (by decide) ?_
      hmarker
    simp [Reading.applies, h]
    decide
  | unicode_ident hmarker h =>
    refine .marked 'U' 'u' ['&', '"'] (by decide) (by decide) ?_ hmarker
    simp [Reading.applies, h]
    decide
  | hex_blob hmarker h =>
    refine .marked 'X' 'x' [single_quote] (by decide) (by decide) ?_ hmarker
    simp [Reading.applies, h]
    decide
  | bit_string hmarker h =>
    have hsplit : byte ∈ [ascii 'B', ascii 'b'] ∨ byte ∈ [ascii 'X', ascii 'x'] :=
      List.mem_append.mp hmarker
    obtain hmarker | hmarker := hsplit
    · refine .marked 'B' 'b' [single_quote] (by decide) (by decide) ?_ hmarker
      simp [Reading.applies, h]
      decide
    · refine .marked 'X' 'x' [single_quote] (by decide) (by decide) ?_ hmarker
      simp [Reading.applies, h]
      decide
  | charset_string h c close hc hname hclose hend => exact .charset h hc hname hclose hend
  | double_quoted_string h => exact .at_start '"' [] (by decide) (by simp [Reading.applies, h])
  | quoted_ident h =>
    obtain ⟨c, hc, rfl⟩ := exists_ascii hbyte
    exact .at_start c [] hc h
  | money h c rest htext hwhole hdigit => exact .money h htext hwhole hdigit
  | positional_dollar h =>
    exact .at_start '$' ['1'] (by decide)
      (by simp [Reading.applies, h, digit_second '$' (by decide)])
  | named_dollar h hname =>
    obtain ⟨c, hc⟩ := hname
    exact .at_start '$' [c] (by decide)
      (by simp [Reading.applies, h, starts_at_second '$' (by decide) hc])
  | anonymous_question h => exact .at_start '?' [] (by decide) (by simp [Reading.applies, h])
  | numbered_question h =>
    exact .at_start '?' ['1'] (by decide)
      (by simp [Reading.applies, h, digit_second '?' (by decide)])
  | named_colon h hname =>
    obtain ⟨c, hc⟩ := hname
    exact .at_start ':' [c] (by decide)
      (by simp [Reading.applies, h, starts_at_second ':' (by decide) hc])
  | named_at h hname =>
    obtain ⟨c, hc⟩ := hname
    exact .at_start '@' [c] (by decide)
      (by simp [Reading.applies, h, starts_at_second '@' (by decide) hc])
  | dollar_quoted_string h => exact .at_start '$' [] (by decide) (by simp [Reading.applies, h])
  | stage_reference h =>
    exact .at_start '@' ['~'] (by decide)
      (by simp [Reading.applies, h, peek_second '@' '~' [] (by decide) (by decide)])
  | system_variable h hname =>
    obtain ⟨c, hc⟩ := hname
    have hthird := starts_at_third '@' '@' (by decide) (by decide) hc
    have hsecond := peek_second '@' '@' [c] (by decide) (by decide)
    exact .at_start '@' ['@', c] (by decide) (by simp [Reading.applies, h, hsecond, hthird])
  | user_variable h hname =>
    obtain ⟨c, hc⟩ := hname
    exact .at_start '@' [c] (by decide)
      (by simp [Reading.applies, h, starts_at_second '@' (by decide) hc])
  | word b rest htext h => exact ⟨⟨0, b :: rest⟩, htext, rfl, by simp [Reading.applies, h]⟩
  | word_char b rest c htext hhigh hchar hstart => exact absurd hbyte (UInt8.not_lt.mpr hhigh)
  | word_underscore h =>
    exact .at_start '_' [] (by decide) (by simp [Reading.applies, h]; right; rfl)
  | positional_column h =>
    exact .at_start '#' ['1'] (by decide) (by simp [Reading.applies, h]; decide)
  | jsonb_question h => exact .at_start '?' [] (by decide) (by simp [Reading.applies, h])
  | containment_at h =>
    exact .at_start '@' ['>'] (by decide)
      (by simp [Reading.applies, h, peek_second '@' '>' [] (by decide) (by decide)])
  | jsonb_at h =>
    exact .at_start '@' ['@'] (by decide)
      (by simp [Reading.applies, h, peek_second '@' '@' [] (by decide) (by decide)])
  | custom_at h => exact .at_start '@' [] (by decide) (by simp [Reading.applies, h])
  | xor h => exact .at_start '#' [] (by decide) (by simp [Reading.applies, h])
  | custom_backtick h => exact .at_start '`' [] (by decide) (by simp [Reading.applies, h])
  | operator h =>
    obtain ⟨c, hc, rfl⟩ := exists_ascii hbyte
    exact .at_start c [] hc (by simp [Reading.applies, h])

/-! ## Readings with a byte in common -/

/-- The bytes that a reading with bytes of its own starts at. -/
def triggers : Reading → List UInt8
  | .HashComment | .PositionalColumn => [ascii '#']
  | .VersionedComment => [ascii '/']
  | .EscapeString => [ascii 'E', ascii 'e']
  | .NationalString => [ascii 'N', ascii 'n']
  | .UnicodeString | .UnicodeIdent => [ascii 'U', ascii 'u']
  | .HexBlob => [ascii 'X', ascii 'x']
  | .BitString => [ascii 'B', ascii 'b', ascii 'X', ascii 'x']
  | .CharsetString => [ascii '_']
  | .DoubleQuotedString => [ascii '"']
  | .Money | .DollarQuotedString => [ascii '$']
  | .Parameter => [ascii '$', ascii '?', ascii ':', ascii '@']
  | .StageReference | .SessionVariable => [ascii '@']
  | .QuotedIdent | .Word | .Operator => []

/-- Any byte may start names, quoted or not, and operators. -/
def untriggered (r : Reading) : Bool := (triggers r).isEmpty

/-- Two readings that have a byte in common. -/
def shares : Reading → Reading → Bool
  | .HashComment, .PositionalColumn | .UnicodeString, .UnicodeIdent | .HexBlob, .BitString => true
  | .Money, .Parameter | .Money, .DollarQuotedString | .Parameter, .DollarQuotedString => true
  | .StageReference, .SessionVariable | .StageReference, .Parameter => true
  | .SessionVariable, .Parameter => true
  | _, _ => false

theorem of_untriggered {r : Reading} (h : untriggered r = true) :
    r = .QuotedIdent ∨ r = .Word ∨ r = .Operator := by
  revert h
  cases r <;> decide

theorem Leads.mem_triggers {r : Reading} (h : Leads unicode features r byte)
    (hr : untriggered r = false) : byte ∈ triggers r := by
  cases h <;> first | assumption | exact absurd hr (by decide) | simp [triggers]

def Reading.all : List Reading :=
  [.HashComment, .VersionedComment, .EscapeString, .NationalString, .UnicodeString, .UnicodeIdent,
    .HexBlob, .BitString, .CharsetString, .DoubleQuotedString, .QuotedIdent, .Money, .Parameter,
    .DollarQuotedString, .StageReference, .SessionVariable, .Word, .PositionalColumn, .Operator]

theorem Reading.mem_all (r : Reading) : r ∈ all := by
  cases r <;> decide

theorem shares_of_mem {r s : Reading} (hr : byte ∈ triggers r) (hs : byte ∈ triggers s) :
    r = s ∨ shares r s = true ∨ shares s r = true := by
  have hdisjoint : ∀ r ∈ Reading.all, ∀ s ∈ Reading.all,
      r = s ∨ shares r s = true ∨ shares s r = true ∨
        (triggers r).all (fun b => !(triggers s).contains b) = true := by
    decide +kernel
  obtain h | h | h | h := hdisjoint r r.mem_all s s.mem_all
  · exact .inl h
  · exact .inr (.inl h)
  · exact .inr (.inr h)
  · have hnot := List.all_eq_true.mp h byte hr
    simp [hs] at hnot

/-! ## Two readings of one place -/

theorem parameter_at
    (h : Reading.Parameter.applies unicode features cursor (ascii '@') = true) :
    features.parameters.named_at = true ∧
      identifier_starts_at unicode features cursor 1 = true := by
  have hdollar : (ascii '@' == ascii '$') = false := rfl
  have hquestion : (ascii '@' == ascii '?') = false := rfl
  have hcolon : (ascii '@' == ascii ':') = false := rfl
  simpa [Reading.applies, hdollar, hquestion, hcolon] using h

theorem session_variable_at
    (h : Reading.SessionVariable.applies unicode features cursor byte = true) :
    byte = ascii '@' ∧
      (features.session_variables.system_variables = true ∧
          cursor.peek_nth 1 = some (ascii '@') ∧
          identifier_starts_at unicode features cursor 2 = true ∨
        features.session_variables.user_variables = true ∧
          identifier_starts_at unicode features cursor 1 = true) := by
  simpa [Reading.applies, and_assoc] using h

theorem stage_reference_at
    (h : Reading.StageReference.applies unicode features cursor byte = true) :
    byte = ascii '@' ∧ features.utility_syntax.stage_references = true ∧
      (cursor.peek_nth 1 = some (ascii '~') ∨ cursor.peek_nth 1 = some (ascii '%') ∨
        identifier_starts_at unicode features cursor 1 = true) := by
  simpa [Reading.applies, and_assoc, or_assoc] using h

theorem parameter_question
    (h : Reading.Parameter.applies unicode features cursor (ascii '?') = true) :
    features.parameters.anonymous_question = true ∨
      features.parameters.numbered_question = true := by
  have hdollar : (ascii '?' == ascii '$') = false := rfl
  have hcolon : (ascii '?' == ascii ':') = false := rfl
  have hat : (ascii '?' == ascii '@') = false := rfl
  simp only [Reading.applies, hdollar, hcolon, hat, beq_self_eq_true, Bool.false_and, Bool.true_and,
    Bool.false_or, Bool.or_false, Bool.or_eq_true, Bool.and_eq_true] at h
  exact h.imp_right And.left

/-- The readings with bytes of their own that start at an at sign. -/
theorem at_triggers {s : Reading} (h : ascii '@' ∈ triggers s) :
    s = .StageReference ∨ s = .SessionVariable ∨ s = .Parameter := by
  revert h
  cases s <;> decide

theorem hash_triggers {s : Reading} (h : ascii '#' ∈ triggers s) :
    s = .HashComment ∨ s = .PositionalColumn := by
  revert h
  cases s <;> decide

theorem question_triggers {s : Reading} (h : ascii '?' ∈ triggers s) : s = .Parameter := by
  revert h
  cases s <;> decide

theorem backtick_triggers {s : Reading} : ascii '`' ∉ triggers s := by
  cases s <;> decide

section
variable {r s : Reading} (hconsistent : features.Consistent) (htext : IsText cursor.rest)
  (hpeek : cursor.peek = some byte)
include hconsistent htext hpeek

omit hpeek in
/-- No name starts at the second of two at signs. -/
theorem not_starts_at_sign
    (hnamed : (features.parameters.named_at || features.session_variables.user_variables ||
      features.session_variables.system_variables) = true)
    (hsecond : cursor.peek_nth 1 = some (ascii '@')) :
    identifier_starts_at unicode features cursor 1 = false := by
  have hclass : features.byte_classes.has_class (ascii '@') CLASS_IDENTIFIER_START = false := by
    simpa [hnamed] using hconsistent.at_byte
  have hchar := char_at_of_peek htext (by decide) hsecond
  simp [identifier_starts_at, hchar, is_identifier_start, FeatureSet.has_byte_class, hclass]

theorem untracked_of_shares (hshares : shares r s = true)
    (hr : r.applies unicode features cursor byte = true)
    (hs : s.applies unicode features cursor byte = true)
    (hdeclared : ¬ Declared cursor byte r s) : Untracked unicode features := by
  have hat_sign := @not_starts_at_sign unicode _ _ hconsistent htext
  unfold shares at hshares
  split at hshares
  · -- a comment wherever a column would be
    simp only [Reading.applies, Bool.and_eq_true] at hr hs
    simpa [hr.2, hs.1.2] using hconsistent.hash_column_comment
  · exact absurd .unicode hdeclared
  · simp only [Reading.applies, Bool.and_eq_true] at hr hs
    exact .blob_bit_string hr.1.2 hs.1.2
  · simp only [Reading.applies, Bool.and_eq_true, beq_iff_eq] at hr
    exact absurd (.dollar hr.1.1 (by decide) (by decide)) hdeclared
  · simp only [Reading.applies, Bool.and_eq_true, beq_iff_eq] at hr
    exact absurd (.dollar hr.1.1 (by decide) (by decide)) hdeclared
  · simp only [Reading.applies, Bool.and_eq_true, beq_iff_eq] at hs
    exact absurd (.dollar hs.1 (by decide) (by decide)) hdeclared
  · obtain ⟨-, hstage, hfollows⟩ := stage_reference_at hr
    obtain ⟨-, ⟨hsystem, hsecond, -⟩ | ⟨huser, hname⟩⟩ := session_variable_at hs
    · have htilde : ascii '@' ≠ ascii '~' := by decide
      have hpercent : ascii '@' ≠ ascii '%' := by decide
      simp [hsecond, hat_sign (by simp [hsystem]) hsecond, htilde, hpercent] at hfollows
    · exact .stage_at_name hstage (by simp [huser]) (nameStarts_of_starts_at hname)
  · obtain ⟨rfl, hstage, -⟩ := stage_reference_at hr
    obtain ⟨hnamed, hname⟩ := parameter_at hs
    exact .stage_at_name hstage (by simp [hnamed]) (nameStarts_of_starts_at hname)
  · obtain ⟨rfl, hvariable⟩ := session_variable_at hr
    obtain ⟨hnamed, hname⟩ := parameter_at hs
    obtain ⟨-, hsecond, -⟩ | ⟨huser, -⟩ := hvariable
    · rw [hat_sign (by simp [hnamed]) hsecond] at hname
      cases hname
    · simpa [hnamed, huser] using hconsistent.at_name
  · cases hshares

omit hpeek in
/-- An operator led by an at sign, outside of the operator class, beside another reading. -/
theorem untracked_of_at_operator (hs : ascii '@' ∈ triggers s) (hbyte : byte = ascii '@')
    (hr : (features.operator_syntax.containment_operators = true ∧
          cursor.peek_nth 1 = some (ascii '>') ∨
        features.operator_syntax.jsonb_operators = true ∧
          (cursor.peek_nth 1 = some (ascii '?') ∨ cursor.peek_nth 1 = some (ascii '@'))) ∨
      features.operator_syntax.custom_operators = true)
    (hs' : s.applies unicode features cursor byte = true)
    (hdeclared : ¬ Declared cursor byte s .Operator) : Untracked unicode features := by
  have hat_sign := @not_starts_at_sign unicode _ _ hconsistent htext
  have hquestion (hsecond : cursor.peek_nth 1 = some (ascii '?')) : False := by
    refine hdeclared (.at_question hbyte hsecond ?_)
    obtain rfl | rfl | rfl := at_triggers hs <;> decide
  obtain rfl | rfl | rfl := at_triggers hs
  · obtain ⟨-, hstage, hfollows⟩ := stage_reference_at hs'
    obtain (⟨hcontainment, hsecond⟩ | ⟨-, hsecond | hsecond⟩) | hcustom := hr
    · have htilde : ascii '>' ≠ ascii '~' := by decide
      have hpercent : ascii '>' ≠ ascii '%' := by decide
      have hchar := char_at_of_peek htext (by decide) hsecond
      refine .stage_contained hstage hcontainment ?_
      simpa [hsecond, htilde, hpercent, identifier_starts_at, hchar] using hfollows
    · exact absurd hsecond hquestion
    · -- the second at sign starts a name, so the first one does
      have htilde : ascii '@' ≠ ascii '~' := by decide
      have hpercent : ascii '@' ≠ ascii '%' := by decide
      have hchar := char_at_of_peek htext (by decide) hsecond
      have hstart : features.has_byte_class (ascii '@') CLASS_IDENTIFIER_START = true := by
        simpa [hsecond, htilde, hpercent, identifier_starts_at, hchar, is_identifier_start]
          using hfollows
      exact .word (ascii '@') .StageReference 
        (.word ⟨ascii '@', some '@'⟩ [] (isText_encode ['@']) hstart) (.stage_reference hstage)
        (by decide) rfl
    · exact .operator_stage (by simp [hcustom]) hstage
  · obtain ⟨-, ⟨hsystem, hat, -⟩ | ⟨huser, hname⟩⟩ := session_variable_at hs'
    · obtain (⟨-, hsecond⟩ | ⟨hjsonb, -⟩) | hcustom := hr
      · rw [hat] at hsecond
        exact absurd hsecond (by decide)
      · simpa [hjsonb, hsystem] using hconsistent.jsonb_at_at
      · have hjsonb : features.operator_syntax.jsonb_operators = false := by
          simpa [hsystem] using hconsistent.jsonb_at_at
        simpa [hcustom, hjsonb, hsystem] using hconsistent.custom_at_at
    · obtain (⟨hcontainment, -⟩ | ⟨-, hsecond | hsecond⟩) | hcustom := hr
      · simpa [hcontainment, huser] using hconsistent.contained_at
      · exact absurd hsecond hquestion
      · rw [hat_sign (by simp [huser]) hsecond] at hname
        cases hname
      · simpa [hcustom, huser] using hconsistent.custom_at
  · obtain ⟨hnamed, hname⟩ := parameter_at (hbyte ▸ hs')
    obtain (⟨hcontainment, -⟩ | ⟨-, hsecond | hsecond⟩) | hcustom := hr
    · simpa [hcontainment, hnamed] using hconsistent.contained_at
    · exact absurd hsecond hquestion
    · rw [hat_sign (by simp [hnamed]) hsecond] at hname
      cases hname
    · simpa [hcustom, hnamed] using hconsistent.custom_at

omit hconsistent hpeek in
/-- A table that has the at sign for an operator. -/
theorem untracked_of_at_class
    (hclass : features.has_byte_class (ascii '@') CLASS_OPERATOR = true)
    (hs : ascii '@' ∈ triggers s) (hs' : s.applies unicode features cursor (ascii '@') = true)
    (hdeclared : ¬ Declared cursor (ascii '@') s .Operator) : Untracked unicode features := by
  have hname_at (h : (features.session_variables.user_variables ||
        features.parameters.named_at) = true)
      (hname : identifier_starts_at unicode features cursor 1 = true) :
      Untracked unicode features := by
    obtain ⟨c, hchar, hc⟩ := (Option.any_eq_true _ _).mp hname
    refine .operator_at_name hclass h c ?_ hc
    rintro rfl
    have hsecond := peek_of_char_at htext (by decide) hchar
    refine hdeclared (.at_question rfl hsecond ?_)
    obtain rfl | rfl | rfl := at_triggers hs <;> decide
  obtain rfl | rfl | rfl := at_triggers hs
  · exact .operator_stage (by simp [hclass]) (stage_reference_at hs').2.1
  · obtain ⟨-, ⟨hsystem, -, hname⟩ | ⟨huser, hname⟩⟩ := session_variable_at hs'
    · exact .operator_system_variable hclass hsystem (nameStarts_of_starts_at hname)
    · exact hname_at (by simp [huser]) hname
  · obtain ⟨hnamed, hname⟩ := parameter_at hs'
    exact hname_at (by simp [hnamed]) hname

theorem untracked_of_operator (hs : untriggered s = false)
    (hr : Reading.Operator.applies unicode features cursor byte = true)
    (hs' : s.applies unicode features cursor byte = true)
    (hdeclared : ¬ Declared cursor byte s .Operator) : Untracked unicode features := by
  have hleads := leads_of_applies htext hpeek hs'
  have hmem := hleads.mem_triggers hs
  simp only [Reading.applies, Bool.or_eq_true, Bool.and_eq_true, beq_iff_eq] at hr
  obtain (((⟨rfl, hjsonb⟩ | ⟨rfl, hat⟩) | ⟨rfl, hxor⟩) | ⟨rfl, -⟩) | hclass := hr
  · obtain rfl := question_triggers hmem
    obtain hanonymous | hnumbered := parameter_question hs'
    · simpa [hjsonb, hanonymous] using hconsistent.question
    · exact .numbered_jsonb hnumbered hjsonb
  · exact untracked_of_at_operator hconsistent htext hmem rfl hat hs' hdeclared
  · obtain rfl | rfl := hash_triggers hmem
    · have hcomment : features.comment_syntax.line_comment_hash = true := by
        simpa [Reading.applies] using hs'
      simpa [hxor, hcomment] using hconsistent.hash_xor_comment
    · have hcolumn : features.expression_syntax.positional_column = true := by
        simp only [Reading.applies, Bool.and_eq_true] at hs'
        exact hs'.1.2
      simpa [hxor, hcolumn] using hconsistent.hash_column_xor
  · exact absurd hmem backtick_triggers
  · by_cases hat : byte = ascii '@'
    · subst hat
      exact untracked_of_at_class htext hclass hmem hs' hdeclared
    · refine .operator byte s hclass hleads ?_ ?_ hat
      · rintro rfl
        cases hs
      · rintro rfl
        cases hs

/-- Two readings of one place are a contention that the registry does not know of, unless their
    pair is declared. -/
theorem untracked_of_applies (hne : r ≠ s)
    (hr : r.applies unicode features cursor byte = true)
    (hs : s.applies unicode features cursor byte = true)
    (hdeclared : ¬ Declared cursor byte r s) (hsymm : ¬ Declared cursor byte s r) :
    Untracked unicode features := by
  have hleads_r := leads_of_applies htext hpeek hr
  have hleads_s := leads_of_applies htext hpeek hs
  by_cases hquote_r : r = .QuotedIdent
  · subst hquote_r
    exact .quote byte s hleads_r hleads_s hne.symm
  by_cases hquote_s : s = .QuotedIdent
  · subst hquote_s
    exact .quote byte r hleads_s hleads_r hne
  by_cases hword_r : r = .Word
  · subst hword_r
    exact .word byte s hleads_r hleads_s hne.symm (by simpa using fun h => hsymm (.word h))
  by_cases hword_s : s = .Word
  · subst hword_s
    exact .word byte r hleads_s hleads_r hne (by simpa using fun h => hdeclared (.word h))
  have triggered {t : Reading} (hquote : t ≠ .QuotedIdent) (hword : t ≠ .Word)
      (hoperator : t ≠ .Operator) : untriggered t = false := by
    cases t <;> first | rfl | contradiction
  by_cases hoperator_r : r = .Operator
  · subst hoperator_r
    exact untracked_of_operator hconsistent htext hpeek (triggered hquote_s hword_s hne.symm) hr hs
      hsymm
  by_cases hoperator_s : s = .Operator
  · subst hoperator_s
    exact untracked_of_operator hconsistent htext hpeek (triggered hquote_r hword_r hne) hs hr
      hdeclared
  have hmem_r := hleads_r.mem_triggers (triggered hquote_r hword_r hoperator_r)
  have hmem_s := hleads_s.mem_triggers (triggered hquote_s hword_s hoperator_s)
  obtain heq | hshares | hshares := shares_of_mem hmem_r hmem_s
  · exact absurd heq hne
  · exact untracked_of_shares hconsistent htext hpeek hshares hr hs hdeclared
  · exact untracked_of_shares hconsistent htext hpeek hshares hs hr hsymm

end

/-! ## Contentions that occur -/

theorem not_exhaustive {r s : Reading} (htext : IsText cursor.rest)
    (hpeek : cursor.peek = some byte) (hr : r.applies unicode features cursor byte = true)
    (hs : s.applies unicode features cursor byte = true) (hne : r ≠ s)
    (hdeclared : ¬ Declared cursor byte r s) (hsymm : ¬ Declared cursor byte s r) :
    ¬ Exhaustive unicode features := by
  intro hexhaustive
  obtain heq | h | h := hexhaustive cursor byte htext hpeek r s hr hs
  · exact hne heq
  · exact hdeclared h
  · exact hsymm h

theorem not_exhaustive_of_quote {r : Reading} (hquote : Leads unicode features .QuotedIdent byte)
    (hr : Leads unicode features r byte) (hne : r ≠ .QuotedIdent) :
    ¬ Exhaustive unicode features := by
  obtain ⟨c, hc, rfl⟩ : ∃ c : Char, c.toNat < 0x80 ∧ byte = ascii c := by
    cases hquote with
    | quoted_ident h => exact opening_identifier_quote_ascii h
  obtain ⟨cursor, htext, hpeek, happlies⟩ := hr.occurs (ascii_lt hc)
  have hopens : Reading.QuotedIdent.applies unicode features cursor (ascii c) = true := by
    cases hquote with
    | quoted_ident h => exact h
  refine not_exhaustive htext hpeek hopens happlies hne.symm ?_ ?_
  · intro h
    cases h <;> contradiction
  · intro h
    cases h
    contradiction

theorem triggers_ascii {r : Reading} (h : byte ∈ triggers r) : byte < 0x80 := by
  have hall : (triggers r).all (· < 0x80) = true := by
    cases r <;> decide
  simpa using List.all_eq_true.mp hall byte h

theorem underscore_triggers {r : Reading} (h : ascii '_' ∈ triggers r) : r = .CharsetString := by
  revert h
  cases r <;> decide

/-- Only the class of a byte lets it lead an operator, but for four bytes. -/
theorem Leads.operator_class (h : Leads unicode features .Operator byte)
    (hbyte : byte ∉ [ascii '?', ascii '@', ascii '#', ascii '`']) :
    features.has_byte_class byte CLASS_OPERATOR = true := by
  cases h <;> first | assumption | exact absurd (by decide) hbyte

/-- What leads a name and another reading but no byte of ASCII leads an operator. -/
theorem Leads.high {r : Reading} (h : Leads unicode features r byte) (hne : r ≠ .Word)
    (hbyte : 0x80 ≤ byte) :
    r = .Operator ∧ features.has_byte_class byte CLASS_OPERATOR = true := by
  have hlarge {c : Char} (hc : c.toNat < 0x80) : byte ≠ ascii c := by
    rintro rfl
    exact absurd (ascii_lt hc) (UInt8.not_lt.mpr hbyte)
  cases huntriggered : untriggered r with
  | false =>
    exact absurd (triggers_ascii (h.mem_triggers huntriggered)) (UInt8.not_lt.mpr hbyte)
  | true =>
    obtain rfl | rfl | rfl := of_untriggered huntriggered
    · cases h with
      | quoted_ident h =>
        obtain ⟨c, hc, rfl⟩ := opening_identifier_quote_ascii h
        exact absurd rfl (hlarge hc)
    · exact absurd rfl hne
    · refine ⟨rfl, h.operator_class ?_⟩
      simp [hlarge (c := '?') (by decide), hlarge (c := '@') (by decide),
        hlarge (c := '#') (by decide), hlarge (c := '`') (by decide)]

theorem not_exhaustive_of_word {r : Reading} (hword : Leads unicode features .Word byte)
    (hr : Leads unicode features r byte) (hne : r ≠ .Word)
    (hdeclared : declared_beside_word byte r = false) : ¬ Exhaustive unicode features := by
  have hpair {cursor : Cursor} : ¬ Declared cursor byte r .Word := by
    intro h
    cases h with
    | dollar hbyte hr hs => contradiction
    | word h =>
      rw [hdeclared] at h
      cases h
  have hsymm {cursor : Cursor} : ¬ Declared cursor byte .Word r := by
    intro h
    cases h <;> contradiction
  have hcontend {cursor : Cursor} (htext : IsText cursor.rest) (hpeek : cursor.peek = some byte)
      (hstarts : Reading.Word.applies unicode features cursor byte = true)
      (happlies : r.applies unicode features cursor byte = true) :
      ¬ Exhaustive unicode features :=
    not_exhaustive htext hpeek happlies hstarts hne hpair hsymm
  have hhigh {b : SourceByte} {rest : List SourceByte} (htext : IsText (b :: rest))
      (hbyte : b.byte = byte) (hlarge : 0x80 ≤ byte)
      (hstarts : Reading.Word.applies unicode features ⟨0, b :: rest⟩ byte = true) :
      ¬ Exhaustive unicode features := by
    obtain ⟨rfl, hclass⟩ := hr.high hne hlarge
    exact @hcontend ⟨0, b :: rest⟩ htext (congrArg some hbyte) hstarts
      (by simp [Reading.applies, hclass])
  cases hword with
  | word b rest htext h =>
    have hstarts (cursor : Cursor) :
        Reading.Word.applies unicode features cursor b.byte = true := by
      simp [Reading.applies, h]
    by_cases hascii : b.byte < 0x80
    · obtain ⟨cursor, htext, hpeek, happlies⟩ := hr.occurs hascii
      exact hcontend htext hpeek (hstarts cursor) happlies
    · exact hhigh htext rfl (UInt8.not_lt.mp hascii) (hstarts _)
  | word_char b rest c htext hlarge hchar hstart =>
    refine hhigh htext rfl hlarge ?_
    simp [Reading.applies, hlarge, Cursor.char_at, hchar, hstart]
  | word_underscore h =>
    have hstarts : Reading.Word.applies unicode features (at_start ['_']) (ascii '_') = true := by
      simp [Reading.applies, h]
      right
      rfl
    have happlies : r.applies unicode features (at_start ['_']) (ascii '_') = true := by
      cases huntriggered : untriggered r with
      | false =>
        obtain rfl := underscore_triggers (hr.mem_triggers huntriggered)
        cases hdeclared
      | true =>
        obtain rfl | rfl | rfl := of_untriggered huntriggered
        · cases hr with
          | quoted_ident h => exact h
        · exact absurd rfl hne
        · simp [Reading.applies, hr.operator_class (by decide)]
    exact hcontend (isText_encode _) (peek_at_start [] (by decide)) hstarts happlies

theorem not_exhaustive_of_operator {r : Reading}
    (hoperator : features.has_byte_class byte CLASS_OPERATOR = true)
    (hr : Leads unicode features r byte) (hne : r ≠ .Operator) (hword : r ≠ .Word)
    (hat : byte ≠ ascii '@') : ¬ Exhaustive unicode features := by
  have hbyte : byte < 0x80 := by
    by_contra hlarge
    exact hne (hr.high hword (UInt8.not_lt.mp hlarge)).1
  obtain ⟨cursor, htext, hpeek, happlies⟩ := hr.occurs hbyte
  have hclass : Reading.Operator.applies unicode features cursor byte = true := by
    simp [Reading.applies, hoperator]
  refine not_exhaustive htext hpeek happlies hclass hne ?_ ?_
  · intro h
    cases h <;> contradiction
  · intro h
    cases h <;> contradiction

/-- Two readings at a sign; an operator with another byte than a question mark behind it. -/
theorem not_exhaustive_at {r s : Reading} (source : List Char)
    (hr : r.applies unicode features (at_start ('@' :: source)) (ascii '@') = true)
    (hs : s.applies unicode features (at_start ('@' :: source)) (ascii '@') = true) (hne : r ≠ s)
    (hrs : r ∈ [Reading.StageReference, .SessionVariable, .Parameter])
    (hss : s ∈ [Reading.SessionVariable, .Parameter, .Operator])
    (hsecond : s = .Operator → (at_start ('@' :: source)).peek_nth 1 ≠ some (ascii '?')) :
    ¬ Exhaustive unicode features := by
  refine not_exhaustive (isText_encode _) (peek_at_start source (by decide)) hr hs hne ?_ ?_
  · intro h
    cases h with
    | dollar hbyte hr hs => exact absurd hbyte (by decide)
    | unicode => exact absurd hss (by decide)
    | word h => exact absurd hss (by decide)
    | at_question hbyte hquestion hr => exact hsecond rfl hquestion
  · intro h
    cases h with
    | dollar hbyte hr hs => exact absurd hbyte (by decide)
    | unicode => exact absurd hss (by decide)
    | word h => exact absurd hrs (by decide)
    | at_question hbyte hquestion hr => exact absurd hrs (by decide)

/-- A sign and a name are a variable or a parameter, whichever the features know. -/
theorem applies_at_name {c : Char}
    (h : (features.session_variables.user_variables || features.parameters.named_at) = true)
    (hc : is_identifier_start unicode features c = true) :
    ∃ r ∈ [Reading.SessionVariable, .Parameter],
      r.applies unicode features (at_start ['@', c]) (ascii '@') = true := by
  have hname := starts_at_second '@' (by decide) hc
  obtain huser | hnamed := (Bool.or_eq_true _ _).mp h
  · exact ⟨.SessionVariable, by decide, by simp [Reading.applies, huser, hname]⟩
  · exact ⟨.Parameter, by decide, by simp [Reading.applies, hnamed, hname]⟩

/-- Each contention that the registry does not know of occurs in some text. -/
theorem not_exhaustive_of_untracked (h : Untracked unicode features) :
    ¬ Exhaustive unicode features := by
  cases h with
  | quote byte r hquote hr hne => exact not_exhaustive_of_quote hquote hr hne
  | word byte r hword hr hne hdeclared => exact not_exhaustive_of_word hword hr hne hdeclared
  | operator byte r hoperator hr hne hword hat =>
    exact not_exhaustive_of_operator hoperator hr hne hword hat
  | operator_system_variable hoperator h hname =>
    obtain ⟨c, hc⟩ := hname
    have hsecond := peek_second '@' '@' [c] (by decide) (by decide)
    refine @not_exhaustive_at _ _ .SessionVariable .Operator ['@', c] ?_ ?_ (by decide) (by decide)
      (by decide) ?_
    · simp [Reading.applies, h, hsecond, starts_at_third '@' '@' (by decide) (by decide) hc]
    · simp [Reading.applies, hoperator]
    · rw [hsecond]
      decide
  | operator_at_name hoperator h c hc hname =>
    obtain ⟨r, hr, happlies⟩ := applies_at_name h hname
    refine not_exhaustive_at [c] happlies
      (show Reading.Operator.applies _ _ _ _ = true by simp [Reading.applies, hoperator]) ?_
      (List.mem_cons_of_mem _ hr) (by decide) ?_
    · rintro rfl
      exact absurd hr (by decide)
    · intro _ hsecond
      have hchar := char_at_of_peek (isText_encode _) (by decide) hsecond
      have hbehind : (at_start ['@', c]).char_at 1 = some c := by
        simpa [scan.at_start, encode_ascii (c := '@') _ (by decide), Cursor.new, Cursor.char_at]
          using char_at_encode c []
      rw [hbehind] at hchar
      exact hc (Option.some.inj hchar)
  | operator_stage hoperator h =>
    have hsecond := peek_second '@' '~' [] (by decide) (by decide)
    refine @not_exhaustive_at _ _ .StageReference .Operator ['~'] ?_ ?_ (by decide) (by decide)
      (by decide) ?_
    · simp [Reading.applies, h, hsecond]
    · obtain hcustom | hclass := (Bool.or_eq_true _ _).mp hoperator
      · simp [Reading.applies, hcustom]
      · simp [Reading.applies, hclass]
    · rw [hsecond]
      decide
  | blob_bit_string hblob hbit =>
    refine @not_exhaustive _ _ (at_start ['x', single_quote]) (ascii 'x') .HexBlob .BitString
      (isText_encode _) (peek_at_start _ (by decide)) ?_ ?_ (by decide) ?_ ?_
    · simp [Reading.applies, hblob]
      decide
    · simp [Reading.applies, hbit]
      decide
    · intro h
      cases h with
      | dollar hbyte hr hs => exact absurd hr (by decide)
    · intro h
      cases h with
      | dollar hbyte hr hs => exact absurd hr (by decide)
  | stage_at_name hstage h hname =>
    obtain ⟨c, hc⟩ := hname
    obtain ⟨s, hs, happlies⟩ := applies_at_name h hc
    refine @not_exhaustive_at _ _ .StageReference s [c] ?_ happlies ?_ (by decide)
      (List.mem_append_left [Reading.Operator] hs) ?_
    · simp [Reading.applies, hstage, starts_at_second '@' (by decide) hc]
    · rintro rfl
      exact absurd hs (by decide)
    · rintro rfl
      exact absurd hs (by decide)
  | stage_contained hstage h hname =>
    have hsecond := peek_second '@' '>' [] (by decide) (by decide)
    refine @not_exhaustive_at _ _ .StageReference .Operator ['>'] ?_ ?_ (by decide) (by decide)
      (by decide) ?_
    · simp [Reading.applies, hstage, starts_at_second '@' (by decide) hname]
    · simp [Reading.applies, h, hsecond]
    · rw [hsecond]
      decide
  | numbered_jsonb hnumbered hjsonb =>
    refine @not_exhaustive _ _ (at_start ['?', '1']) (ascii '?') .Parameter .Operator
      (isText_encode _) (peek_at_start _ (by decide)) ?_ ?_ (by decide) ?_ ?_
    · simp [Reading.applies, hnumbered, digit_second '?' (by decide)]
    · simp [Reading.applies, hjsonb]
    · intro h
      cases h with
      | dollar hbyte hr hs => exact absurd hbyte (by decide)
      | at_question hbyte hquestion hr => exact absurd hbyte (by decide)
    · intro h
      cases h with
      | dollar hbyte hr hs => exact absurd hbyte (by decide)

end

/-- A feature set of stages that has parameters behind at signs as well. -/
def STAGE_PARAMETERS : FeatureSet :=
  { FeatureSet.SNOWFLAKE with
    parameters := { FeatureSet.SNOWFLAKE.parameters with named_at := true } }

end squonk.tokenizer.scan
