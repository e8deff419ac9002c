import Mathlib
import Squonk.Tokenizer.Contention
import Squonk.Tokenizer.Names
import Squonk.Tokenizer.Tiling

/-!
# Quoted lexemes over characters

What the scanner over bytes does between two delimiters is what the scanner over characters does
there: a delimiter and a backslash are ASCII, and no other character has a byte of theirs.
-/

open squonk.dialect squonk.dialect.lex_class squonk.document

namespace squonk.tokenizer.scan

/-! ## The body -/

/-- Bytes that neither close a body nor escape in it are passed over. -/
theorem scan_quote_run_plain {scan : QuoteScan} {start body_start : Nat}
    {bytes : List SourceByte} (rest : List SourceByte) (pos : Nat)
    (h : ∀ b ∈ bytes, b.byte ≠ scan.close ∧ (scan.backslash = true → b.byte ≠ ascii backslash)) :
    scan_quote_run scan start body_start pos (bytes ++ rest) =
      scan_quote_run scan start body_start (pos + bytes.length) rest := by
  induction bytes generalizing pos with
  | nil => rfl
  | cons b bytes ih =>
    obtain ⟨hclose, hback⟩ := h b (.head _)
    have hescape : (b.byte == ascii backslash && scan.backslash) = false := by
      cases hscan : scan.backslash with
      | false => exact Bool.and_false _
      | true => rw [beq_eq_false_iff_ne.mpr (hback hscan), Bool.false_and]
    have hnext : (b.byte == scan.close) = false := beq_eq_false_iff_ne.mpr hclose
    rw [List.cons_append, scan_quote_run.eq_def]
    simp only [hescape, hnext, Bool.false_eq_true, if_false]
    rw [ih (pos + 1) fun b' hb' => h b' (.tail _ hb'), List.length_cons, Nat.add_right_comm,
      Nat.add_assoc]

theorem byte_ne_of_continuation {byte : UInt8} (h : is_continuation byte = true) {c : Char}
    (hc : c.toNat < 0x80) : byte ≠ ascii c := by
  rintro rfl
  simp only [is_continuation, Bool.and_eq_true, decide_eq_true_eq] at h
  exact absurd (ascii_lt hc) (UInt8.not_lt.mpr h.1)

/-- The bytes of a character are none of another ASCII character. -/
theorem bytes_ne {c d : Char} (hd : d.toNat < 0x80) (hne : c ≠ d) :
    ∀ b ∈ encode_char c, b.byte ≠ ascii d := by
  intro b hb
  by_cases hc : c.toNat < 0x80
  · rw [encode_char_ascii hc, List.mem_singleton] at hb
    rw [hb]
    exact fun h => hne (ascii_inj hc hd h)
  · obtain ⟨first, others, heq, hsize, hfirst, hothers⟩ := encode_char_eq c
    rw [heq] at hb
    obtain rfl | hb := List.mem_cons.mp hb
    · intro hbyte
      have hlt : first < 0x80 := by
        rw [show first = ascii d from hbyte]
        exact ascii_lt hd
      rw [hfirst hlt, List.length_nil] at hsize
      have hvalue : c.val ≤ 127 := Char.utf8Size_eq_one_iff.mp hsize.symm
      exact hc (Nat.lt_succ_of_le (UInt32.le_iff_toNat_le.mp hvalue))
    · exact byte_ne_of_continuation (hothers b hb).2 hd

/-- The end of a body at the delimiter behind which the cursor stands. -/
def closed (scan : QuoteScan) (start body_start : Nat) (stop : Cursor) : Scan (Token × Cursor) :=
  if scan.kind == .QuotedIdent && !scan.allow_zero_length && stop.pos == body_start + 1 then
    lex_error .ZeroLengthDelimitedIdentifier start stop.pos
  else .ok (⟨scan.kind, ⟨start, stop.pos⟩⟩, stop)

theorem scan_quote_run_encode {scan : QuoteScan} {close : Char} (hclose : scan.close = ascii close)
    (hascii : close.toNat < 0x80) (hne : close ≠ backslash) (start body_start pos : Nat)
    (cs : List Char) :
    scan_quote_run scan start body_start pos (encode cs) =
      match tokenizer.scan_quoted_body close scan.backslash cs with
      | none => lex_error scan.unterminated start (pos + (encode cs).length)
      | some (body, rest) =>
        closed scan start body_start ⟨pos + (encode body).length, encode rest⟩ := by
  have hback : backslash.toNat < 0x80 := by decide
  have hcloseb : (ascii close == ascii backslash) = false := by
    rw [beq_eq_false_iff_ne]
    exact fun h => hne (ascii_inj hascii hback h)
  have hstart (pos : Nat) : (pos + 1 == body_start + 1) = (pos == body_start) := by
    rw [Bool.eq_iff_iff, beq_iff_eq, beq_iff_eq]
    omega
  generalize hescapes : scan.backslash = escapes
  fun_induction tokenizer.scan_quoted_body close escapes cs generalizing pos
  case case1 => rfl
  case case2 c hescape =>
    obtain ⟨rfl, rfl⟩ : c = backslash ∧ escapes = true := by simpa using hescape
    rw [encode_ascii [] hback, scan_quote_run.eq_def]
    simp only [beq_self_eq_true, hescapes, Bool.and_self, if_true]
    rfl
  case case3 c hescape d cs ih =>
    obtain ⟨rfl, rfl⟩ : c = backslash ∧ escapes = true := by simpa using hescape
    obtain ⟨first, others, heq, -, -, hothers⟩ := encode_char_eq d
    have hplain : ∀ b ∈ others, b.byte ≠ scan.close ∧
        (scan.backslash = true → b.byte ≠ ascii backslash) := by
      intro b hb
      have hcont := (hothers b hb).2
      rw [hclose]
      exact ⟨byte_ne_of_continuation hcont hascii, fun _ => byte_ne_of_continuation hcont hback⟩
    have hlength : (encode (backslash :: d :: cs)).length =
        2 + others.length + (encode cs).length := by
      rw [encode_ascii _ hback, encode_cons, heq]
      simp only [List.length_cons, List.length_append]
      omega
    have hrun : scan_quote_run scan start body_start pos (encode (backslash :: d :: cs)) =
        scan_quote_run scan start body_start (pos + 2 + others.length) (encode cs) := by
      rw [← scan_quote_run_plain (encode cs) (pos + 2) hplain, encode_ascii _ hback, encode_cons,
        heq, List.cons_append, scan_quote_run.eq_def]
      simp only [beq_self_eq_true, hescapes, Bool.and_self, if_true]
    rw [hrun, ih, hlength]
    cases tokenizer.scan_quoted_body close true cs with
    | none =>
      rw [Option.map_none]
      simp only [lex_error, Nat.add_assoc]
    | some read =>
      obtain ⟨body, rest⟩ := read
      have hbody : (encode (backslash :: d :: body)).length =
          2 + others.length + (encode body).length := by
        rw [encode_ascii _ hback, encode_cons, heq]
        simp only [List.length_cons, List.length_append]
        omega
      rw [Option.map_some]
      simp only [hbody, Nat.add_assoc]
  case case4 c hescape hc =>
    obtain rfl : c = close := beq_iff_eq.mp hc
    have hone : (encode [c]).length = 1 := by
      rw [encode_ascii [] hascii]
      rfl
    simp only [closed, hone, hstart]
    rw [encode_ascii [] hascii, scan_quote_run.eq_def]
    simp only [hcloseb, Bool.false_and, Bool.false_eq_true, if_false, hclose, beq_self_eq_true,
      if_true]
    rfl
  case case5 c hescape hc d cs hd ih =>
    obtain rfl : c = close := beq_iff_eq.mp hc
    obtain rfl : d = c := beq_iff_eq.mp hd
    have hlength (body : List Char) : (encode (d :: d :: body)).length = 2 + (encode body).length := by
      rw [encode_ascii _ hascii, encode_ascii _ hascii, List.length_cons, List.length_cons]
      omega
    have hrun : scan_quote_run scan start body_start pos (encode (d :: d :: cs)) =
        scan_quote_run scan start body_start (pos + 2) (encode cs) := by
      rw [encode_ascii _ hascii, encode_ascii _ hascii, scan_quote_run.eq_def]
      simp only [hcloseb, Bool.false_and, Bool.false_eq_true, if_false, hclose, beq_self_eq_true,
        if_true]
    rw [hrun, ih, hlength]
    cases tokenizer.scan_quoted_body d escapes cs with
    | none =>
      rw [Option.map_none]
      simp only [lex_error, Nat.add_assoc]
    | some read =>
      obtain ⟨body, rest⟩ := read
      rw [Option.map_some]
      simp only [hlength, Nat.add_assoc]
  case case6 c hescape hc d cs hd =>
    obtain rfl : c = close := beq_iff_eq.mp hc
    obtain ⟨first, others, heq, -⟩ := encode_char_eq d
    have hfirst : (first == ascii c) = false := by
      rw [beq_eq_false_iff_ne]
      have hother := bytes_ne hascii (show d ≠ c by simpa using hd) ⟨first, some d⟩
      rw [heq] at hother
      exact hother (.head _)
    have hone : (encode [c]).length = 1 := by
      rw [encode_ascii [] hascii]
      rfl
    simp only [closed, hone, hstart]
    rw [encode_ascii _ hascii, encode_cons, heq, List.cons_append, scan_quote_run.eq_def]
    simp only [hcloseb, Bool.false_and, Bool.false_eq_true, if_false, hclose, beq_self_eq_true,
      if_true, hfirst]
  case case7 c cs hescape hc ih =>
    have hplain : ∀ b ∈ encode_char c, b.byte ≠ scan.close ∧
        (scan.backslash = true → b.byte ≠ ascii backslash) := by
      intro b hb
      rw [hclose]
      refine ⟨bytes_ne hascii (by simpa using hc) b hb, fun hscan => ?_⟩
      apply bytes_ne hback _ b hb
      rintro rfl
      rw [hescapes] at hscan
      rw [hscan] at hescape
      exact hescape rfl
    rw [encode_cons, scan_quote_run_plain _ pos hplain, ih, List.length_append]
    cases tokenizer.scan_quoted_body close escapes cs with
    | none =>
      rw [Option.map_none]
      simp only [lex_error, Nat.add_assoc]
    | some read =>
      obtain ⟨body, rest⟩ := read
      rw [Option.map_some]
      simp only [encode_cons, List.length_append, Nat.add_assoc]

/-! ## The dispatch at a quote -/

def TokenKind.is_quoted : TokenKind → Bool
  | .String | .QuotedIdent => true
  | _ => false

section
variable {unicode : Unicode} {features : FeatureSet} {c stop : Cursor} {token : Token}

theorem closed_kind {scan : QuoteScan} {start body_start : Nat}
    (h : closed scan start body_start stop = .ok (token, stop)) : token.kind = scan.kind := by
  unfold closed at h
  split at h
  · cases h
  · cases h
    rfl

theorem scan_word_kind (h : scan_word unicode features c = .ok (token, stop)) :
    token.kind.is_quoted = false := by
  unfold scan_word at h
  split at h
  · cases h
  · obtain ⟨behind, -, hrest⟩ := bind_eq_ok.mp h
    split at hrest
    all_goals
      cases hrest
      rfl

theorem scan_number_kind (h : scan_number unicode features c = .ok (token, stop)) :
    token.kind.is_quoted = false := by
  unfold scan_number at h
  dsimp only at h
  split at h
  · obtain ⟨behind, -, hrest⟩ := bind_eq_ok.mp h
    cases hrest
  · cases h
    rfl

theorem scan_operator_kind (h : scan_operator features c = .ok (token, stop)) :
    token.kind.is_quoted = false := by
  unfold scan_operator at h
  split at h
  · cases h
    rfl
  · cases h

theorem scan_punctuation_kind (h : scan_punctuation features c = .ok (token, stop)) :
    token.kind.is_quoted = false := by
  unfold scan_punctuation at h
  dsimp only at h
  split at h
  · cases h
    rfl
  split at h
  · cases h
    rfl
  split at h
  · cases h
    rfl
  · cases h

/-- No class of bytes has quoted lexemes. -/
theorem scan_class_kind {byte : UInt8}
    (h : scan_class unicode features c byte = .ok (token, stop)) :
    token.kind.is_quoted = false := by
  unfold scan_class at h
  split at h
  · exact scan_word_kind h
  split at h
  · split at h
    · cases h
    split at h
    · exact scan_word_kind h
    · cases h
  split at h
  · exact scan_number_kind h
  split at h
  · exact scan_number_kind h
  split at h
  · cases h
    rfl
  split at h
  · exact scan_operator_kind h
  split at h
  · exact scan_operator_kind h
  split at h
  · exact scan_operator_kind h
  split at h
  · exact scan_punctuation_kind h
  · cases h

/-- The characters that a name in quotes starts with. -/
def quotes : List Char := [single_quote, '"', '`', '[']

/-- A quote is no marker of a string and no sigil. -/
theorem scan_token_quote {q : Char} (hq : q ∈ quotes) :
    scan_token unicode features c (ascii q) =
      (scan_delimited features c (ascii q)).getD (scan_class unicode features c (ascii q)) := by
  have hmarked : scan_marked unicode features c (ascii q) = none := by
    simp only [quotes, List.mem_cons, List.not_mem_nil, or_false] at hq
    obtain rfl | rfl | rfl | rfl := hq
    all_goals rfl
  have hsigil : scan_sigil unicode features c (ascii q) = none := by
    simp only [quotes, List.mem_cons, List.not_mem_nil, or_false] at hq
    obtain rfl | rfl | rfl | rfl := hq
    all_goals rfl
  unfold scan_token
  rw [hmarked, hsigil, Option.none_or, Option.or_none]

/-- What a string in plain quotes is scanned by. -/
def string_scan (features : FeatureSet) (q : Char) : QuoteScan :=
  ⟨ascii q, .String, .UnterminatedString, features.string_literals.backslash_escapes, false⟩

/-- What a quoted identifier is scanned by. -/
def ident_scan (features : FeatureSet) (close : UInt8) : QuoteScan :=
  ⟨close, .QuotedIdent, .UnterminatedQuotedIdent, false,
    features.identifier_syntax.empty_quoted_identifiers⟩

/-- Whether strings have the character for their quotes. -/
def quotes_strings (features : FeatureSet) (q : Char) : Bool :=
  q == single_quote || q == '"' && features.string_literals.double_quoted_strings

theorem scan_token_string {q : Char} (hq : q ∈ quotes)
    (hstrings : quotes_strings features q = true) :
    scan_token unicode features c (ascii q) = scan_quoted c (string_scan features q) := by
  rw [scan_token_quote hq]
  simp only [quotes, List.mem_cons, List.not_mem_nil, or_false] at hq
  obtain rfl | rfl | rfl | rfl := hq
  · rfl
  · have hdouble : features.string_literals.double_quoted_strings = true := hstrings
    unfold scan_delimited
    dsimp only
    rw [hdouble]
    rfl
  · cases hstrings
  · cases hstrings

theorem scan_token_ident {q : Char} (hq : q ∈ quotes)
    (hstrings : quotes_strings features q = false) :
    scan_token unicode features c (ascii q) =
      ((opening_identifier_quote features (ascii q)).map fun close =>
        scan_quoted c (ident_scan features close)).getD
          (scan_class unicode features c (ascii q)) := by
  rw [scan_token_quote hq]
  simp only [quotes, List.mem_cons, List.not_mem_nil, or_false] at hq
  obtain rfl | rfl | rfl | rfl := hq
  · cases hstrings
  · have hdouble : features.string_literals.double_quoted_strings = false := hstrings
    unfold scan_delimited
    dsimp only
    rw [hdouble]
    rfl
  · rfl
  · rfl

end

/-! ## Slices of a source -/

/-- Between two characters a source is cut in two texts. -/
theorem split_at_boundary {source : List Char} {pos : Nat}
    (h : is_char_boundary (encode source) pos = true) :
    ∃ front behind, source = front ++ behind ∧ (encode front).length = pos := by
  induction source generalizing pos with
  | nil =>
    simp only [is_char_boundary, Bool.and_eq_true, decide_eq_true_eq] at h
    exact ⟨[], [], rfl, (Nat.le_zero.mp h.1).symm⟩
  | cons c source ih =>
    obtain ⟨first, others, heq, -, -, hothers⟩ := encode_char_eq c
    have hlength : (encode_char c).length = others.length + 1 := by rw [heq, List.length_cons]
    by_cases hzero : pos = 0
    · exact ⟨[], c :: source, rfl, hzero.symm⟩
    by_cases hinside : pos < (encode_char c).length
    · -- inside of a character no other begins
      simp only [is_char_boundary, Bool.and_eq_true, decide_eq_true_eq] at h
      have hdrop : (encode (c :: source)).drop pos =
          others.drop (pos - 1) ++ encode source := by
        obtain ⟨n, rfl⟩ : ∃ n, pos = n + 1 := ⟨pos - 1, by omega⟩
        rw [encode_cons, List.drop_append_of_le_length hinside.le, heq, List.drop_succ_cons,
          Nat.add_sub_cancel]
      have hlt : pos - 1 < others.length := by omega
      have hwhole := h.2
      rw [hdrop, List.drop_eq_getElem_cons hlt, List.cons_append, whole_cons,
        (hothers _ (List.getElem_mem hlt)).1] at hwhole
      cases hwhole
    · have hbehind : is_char_boundary (encode source) (pos - (encode_char c).length) = true := by
        simp only [is_char_boundary, Bool.and_eq_true, decide_eq_true_eq, encode_cons,
          List.length_append, List.drop_append] at h ⊢
        rw [List.drop_eq_nil_of_le (by omega), List.nil_append] at h
        exact ⟨by omega, h.2⟩
      obtain ⟨front, behind, rfl, hpos⟩ := ih hbehind
      refine ⟨c :: front, behind, rfl, ?_⟩
      rw [encode_cons, List.length_append, hpos]
      omega

/-! ## The tokens of a source -/

section
variable {unicode : Unicode} {features : FeatureSet}

/-- A token is what is scanned at a cursor of the source, and a quoted one has no NUL. -/
structure ScannedAt (unicode : Unicode) (features : FeatureSet) (source : List Char)
    (token : Token) (c stop : Cursor) (byte : UInt8) : Prop where
  within : Within source c
  peek : c.peek = some byte
  scanned : scan_token unicode features c byte = .ok (token, stop)
  nul : token.kind.is_quoted = true → (c.text_until stop).any (·.byte == 0) = false

namespace ScannedAt

variable {source : List Char} {token : Token} {c stop : Cursor} {byte : UInt8}

theorem span (h : ScannedAt unicode features source token c stop byte) :
    token.span = ⟨c.pos, stop.pos⟩ :=
  (scan_token_lexes h.within.isText h.peek token stop h.scanned).1

theorem pos_lt (h : ScannedAt unicode features source token c stop byte) : c.pos < stop.pos :=
  (scan_token_lexes h.within.isText h.peek token stop h.scanned).2.1

theorem moves (h : ScannedAt unicode features source token c stop byte) : Moves c stop :=
  (scan_token_lexes h.within.isText h.peek token stop h.scanned).2.2.toMoves

end ScannedAt

theorem check_nul_quoted {c : Cursor} {scanned scanned' : Token × Cursor}
    (h : check_nul c scanned = .ok scanned') (hkind : scanned.1.kind.is_quoted = true) :
    (c.text_until scanned.2).any (·.byte == 0) = false := by
  unfold check_nul at h
  dsimp only at h
  split at h
  · split at h
    · cases h
    · rename_i hnul
      exact Bool.eq_false_of_not_eq_true hnul
  · split at h
    · cases h
    · rename_i hnul
      exact Bool.eq_false_of_not_eq_true hnul
  · rename_i hstring hident
    cases hscanned : scanned.1.kind with
    | String => exact absurd hscanned hstring
    | QuotedIdent => exact absurd hscanned hident
    | _ =>
      rw [hscanned] at hkind
      cases hkind

theorem check_nul_plain {c : Cursor} {scanned : Token × Cursor}
    (h : (c.text_until scanned.2).any (·.byte == 0) = false) :
    check_nul c scanned = .ok scanned := by
  unfold check_nul
  dsimp only
  rw [h]
  split
  all_goals rfl

/-- The tokens read from a cursor on stand behind it, one behind the other. -/
theorem collect_scanned {source : List Char} (n : Nat) {c : Cursor} {state : LexState}
    {tokens read : List Token} (hwithin : Within source c)
    (h : collect unicode features NoTrivia (encode source) n c () state tokens = .ok (read, ())) :
    ∃ behind, read = tokens ++ behind ∧
      (behind.Pairwise fun a b => a.span.stop ≤ b.span.start) ∧
      ∀ token ∈ behind, c.pos ≤ token.span.start ∧ token.span.start < token.span.stop ∧
        ∃ start stop byte, ScannedAt unicode features source token start stop byte := by
  induction n generalizing c state tokens with
  | zero =>
    cases h
    exact ⟨[], (List.append_nil _).symm, .nil, fun _ ht => absurd ht List.not_mem_nil⟩
  | succ n ih =>
    rw [collect] at h
    obtain ⟨⟨token, stop, trivia, state'⟩, hnext, hrest⟩ := bind_eq_ok.mp h
    obtain ⟨start, hskip, hcases⟩ := next_token_cases hnext
    obtain ⟨rfl, -, -, -⟩ | ⟨byte, scanned, hpeek, rfl, hscan⟩ := hcases
    · cases hrest
      exact ⟨[], (List.append_nil _).symm, .nil, fun _ ht => absurd ht List.not_mem_nil⟩
    · have hmoves : Moves c start := skip_trivia_loop_moves _ hwithin.isText hskip
      have hat : ScannedAt unicode features source scanned start stop byte := by
        refine ⟨hwithin.moves hmoves, hpeek, hscan, fun hkind => ?_⟩
        unfold next_token at hnext
        obtain ⟨⟨start', trivia', state''⟩, hskip', hnext⟩ := bind_eq_ok.mp hnext
        rw [hskip] at hskip'
        cases hskip'
        simp only [hpeek] at hnext
        obtain ⟨found, hfound, hnext⟩ := bind_eq_ok.mp hnext
        rw [hscan] at hfound
        cases hfound
        obtain ⟨checked, hcheck, -⟩ := bind_eq_ok.mp hnext
        exact check_nul_quoted hcheck hkind
      have hstop := (hwithin.moves hmoves).moves hat.moves
      obtain ⟨behind, rfl, hpairs, hbehind⟩ := ih hstop hrest
      have hspan := hat.span
      have hle := hmoves.pos_le
      have hlt := hat.pos_lt
      refine ⟨scanned :: behind, by rw [List.append_assoc]; rfl, ?_, ?_⟩
      · refine .cons (fun token ht => ?_) hpairs
        rw [hspan]
        exact (hbehind token ht).1
      · intro token ht
        obtain rfl | ht := List.mem_cons.mp ht
        · rw [hspan]
          exact ⟨hle, hlt, start, stop, byte, hat⟩
        · obtain ⟨hfrom, hsize, hscanned⟩ := hbehind token ht
          exact ⟨by omega, hsize, hscanned⟩

theorem tokenize_with_scanned {source : List Char} {tokens : List Token}
    (h : tokenize_with unicode source features = .ok tokens) :
    (tokens.Pairwise fun a b => a.span.stop ≤ b.span.start) ∧
      ∀ token ∈ tokens, token.span.start < token.span.stop ∧
        ∃ start stop byte, ScannedAt unicode features source token start stop byte := by
  unfold tokenize_with collect_all at h
  split at h
  · cases h
  cases hread : collect unicode features NoTrivia (encode source) ((encode source).length + 1)
      (.new (encode source)) () ⟨none⟩ [] with
  | error fault =>
    rw [hread] at h
    cases h
  | ok read =>
    rw [hread] at h
    cases h
    obtain ⟨behind, hread', hpairs, hbehind⟩ := collect_scanned _ (.refl _) hread
    rw [List.nil_append] at hread'
    rw [hread']
    exact ⟨hpairs, fun token ht => (hbehind token ht).2⟩

end

end squonk.tokenizer.scan
