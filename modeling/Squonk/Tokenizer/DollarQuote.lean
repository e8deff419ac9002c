import Squonk.Dialect.Presets
import Squonk.Tokenizer.Dispatch
import Squonk.Tokenizer.Tiling

/-!
# Dollar quotes

What a dollar-quoted string is, and that the scanner finds it: the string goes from a delimiter to
the next place where the same delimiter stands.
-/

open squonk.dialect squonk.dialect.lex_class

namespace squonk.tokenizer.scan

/-! ## Delimiters -/

/-- What stands between the dollar signs of a delimiter. -/
structure DollarTag (features : FeatureSet) where
  bytes : List UInt8
  first : ∀ b ∈ bytes.head?, is_dollar_tag_start features b = true
  others : ∀ b ∈ bytes.tail, is_dollar_tag_continue features b = true
  dollarless : ascii '$' ∉ bytes

def DollarTag.delimiter {features : FeatureSet} (self : DollarTag features) : List UInt8 :=
  ascii '$' :: (self.bytes ++ [ascii '$'])

def bytes_at (cursor : Cursor) : List UInt8 := cursor.rest.map (·.byte)

/-- The delimiter stands at the cursor. -/
def DollarTag.Opens {features : FeatureSet} (self : DollarTag features) (cursor : Cursor) : Prop :=
  self.delimiter <+: bytes_at cursor

/-- The delimiter stands behind a body of `n` bytes. -/
def DollarTag.Closes {features : FeatureSet} (self : DollarTag features) (cursor : Cursor)
    (n : Nat) : Prop :=
  self.delimiter <+: (bytes_at cursor).drop (self.delimiter.length + n)

/-- What a dollar sign is read as where dollar-quoted strings are looked for. -/
inductive DollarQuoted (features : FeatureSet) (cursor : Cursor) : Scan (Token × Cursor) → Prop
  | closed (tag : DollarTag features) (n : Nat) (hopens : tag.Opens cursor)
      (hcloses : tag.Closes cursor n) (hfirst : ∀ m < n, ¬ tag.Closes cursor m) :
    DollarQuoted features cursor (.ok (emit .String cursor
      (cursor.advance_bytes (tag.delimiter.length + n + tag.delimiter.length))))
  | unterminated (tag : DollarTag features) (hopens : tag.Opens cursor)
      (hnone : ∀ n, ¬ tag.Closes cursor n) :
    DollarQuoted features cursor
      (lex_error .UnterminatedDollarQuote cursor.pos (cursor.pos + cursor.rest.length))
  | stray (hnone : ∀ tag : DollarTag features, ¬ tag.Opens cursor) :
    DollarQuoted features cursor (lex_error .StrayByte cursor.pos (cursor.pos + 1))

/-- The dollar sign is no byte of names. -/
structure DollarFree (features : FeatureSet) : Prop where
  start : features.has_byte_class (ascii '$') CLASS_IDENTIFIER_START = false
  continues : features.has_byte_class (ascii '$') CLASS_IDENTIFIER_CONTINUE = false

variable {features : FeatureSet}

theorem DollarFree.not_start (h : DollarFree features) :
    is_dollar_tag_start features (ascii '$') = false := by
  rw [is_dollar_tag_start, h.start]
  rfl

/-! ## Tags -/

/-- The scanner takes the tag that a delimiter opens with. -/
theorem dollar_tag_len_of_opens (hfree : DollarFree features) (tag : DollarTag features)
    {rest : List SourceByte} {behind : List UInt8}
    (h : rest.map (·.byte) = tag.bytes ++ ascii '$' :: behind) :
    dollar_tag_len features rest = tag.bytes.length := by
  cases rest with
  | nil => simp at h
  | cons b rest =>
    rw [List.map_cons] at h
    rw [dollar_tag_len]
    cases hbytes : tag.bytes with
    | nil =>
      rw [hbytes, List.nil_append] at h
      rw [(List.cons.inj h).1, hfree.not_start, if_neg Bool.false_ne_true, List.length_nil]
    | cons c others =>
      rw [hbytes, List.cons_append] at h
      obtain ⟨rfl, hrest⟩ := List.cons.inj h
      have hfirst := tag.first b.byte (by rw [hbytes]; rfl)
      have hothers := tag.others
      rw [hbytes, List.tail_cons] at hothers
      have hrun : (rest.takeWhile fun b => is_dollar_tag_continue features b.byte).length =
          ((rest.map (·.byte)).takeWhile (is_dollar_tag_continue features)).length := by
        rw [List.takeWhile_map, List.length_map]
        rfl
      rw [if_pos hfirst, hrun, hrest, List.takeWhile_append_of_pos hothers,
        List.takeWhile_cons_of_neg (by simp [is_dollar_tag_continue, hfree.continues]),
        List.append_nil,
        List.length_cons, Nat.add_comm]

/-- What the scanner takes for a tag is one. -/
theorem exists_tag (hfree : DollarFree features) (rest : List SourceByte) :
    ∃ tag : DollarTag features,
      tag.bytes = (rest.take (dollar_tag_len features rest)).map (·.byte) := by
  cases rest with
  | nil => exact ⟨⟨[], nofun, nofun, nofun⟩, rfl⟩
  | cons b rest =>
    cases hstart : is_dollar_tag_start features b.byte with
    | false => exact ⟨⟨[], nofun, nofun, nofun⟩, by simp [dollar_tag_len, hstart]⟩
    | true =>
      let run := rest.takeWhile fun b => is_dollar_tag_continue features b.byte
      let others := run.map fun b : SourceByte => b.byte
      have hothers : ∀ c ∈ others, is_dollar_tag_continue features c = true := by
        intro c hc
        obtain ⟨d, hd, rfl⟩ := List.mem_map.mp hc
        exact List.mem_takeWhile_imp (p := fun b : SourceByte =>
          is_dollar_tag_continue features b.byte) hd
      refine ⟨⟨b.byte :: others, ?_, hothers, ?_⟩, ?_⟩
      · rintro c ⟨rfl⟩
        exact hstart
      · intro hdollar
        obtain heq | hmem := List.mem_cons.mp hdollar
        · rw [← heq, hfree.not_start] at hstart
          cases hstart
        · have hcontinue := hothers _ hmem
          rw [is_dollar_tag_continue, hfree.continues] at hcontinue
          cases hcontinue
      · have htake : rest.take run.length = run :=
          (List.prefix_iff_eq_take.mp (List.takeWhile_prefix _)).symm
        rw [dollar_tag_len, if_pos hstart, Nat.add_comm, List.take_succ_cons, List.map_cons]
        exact congrArg _ (congrArg _ htake.symm)

/-! ## The search -/

theorem scan_dollar_run_first {delim : List UInt8} {start : Nat} (pos n : Nat)
    {rest : List SourceByte} (hne : delim ≠ []) (hfound : delim <+: (rest.map (·.byte)).drop n)
    (hfirst : ∀ m < n, ¬ delim <+: (rest.map (·.byte)).drop m) :
    scan_dollar_run delim start pos rest =
      .ok (⟨.String, ⟨start, pos + n + delim.length⟩⟩,
        ⟨pos + n + delim.length, rest.drop (n + delim.length)⟩) := by
  induction rest generalizing pos n with
  | nil =>
    rw [List.map_nil, List.drop_nil] at hfound
    exact absurd (List.prefix_nil.mp hfound) hne
  | cons b rest ih =>
    rw [scan_dollar_run]
    cases n with
    | zero =>
      have hhere : delim.isPrefixOf ((b :: rest).map (·.byte)) := List.isPrefixOf_iff_prefix.mpr hfound
      rw [if_pos hhere, Nat.add_zero, Nat.zero_add]
    | succ n =>
      have hnot : ¬ delim.isPrefixOf ((b :: rest).map (·.byte)) := fun h =>
        hfirst 0 (Nat.succ_pos n) (List.isPrefixOf_iff_prefix.mp h)
      rw [if_neg hnot, ih (pos + 1) n hfound fun m hm => hfirst (m + 1) (Nat.succ_lt_succ hm),
        Nat.add_right_comm n 1, List.drop_succ_cons, Nat.add_assoc pos, Nat.add_comm 1 n]

theorem scan_dollar_run_none {delim : List UInt8} {start : Nat} (pos : Nat)
    {rest : List SourceByte} (hnone : ∀ n, ¬ delim <+: (rest.map (·.byte)).drop n) :
    scan_dollar_run delim start pos rest =
      lex_error .UnterminatedDollarQuote start (pos + rest.length) := by
  induction rest generalizing pos with
  | nil => rfl
  | cons b rest ih =>
    have hnot : ¬ delim.isPrefixOf ((b :: rest).map (·.byte)) := fun h =>
      hnone 0 (List.isPrefixOf_iff_prefix.mp h)
    rw [scan_dollar_run, if_neg hnot, ih (pos + 1) fun n => hnone (n + 1), List.length_cons, Nat.add_assoc, Nat.add_comm 1]

/-! ## The scanner -/

section
variable {cursor : Cursor} (hfree : DollarFree features) (hpeek : cursor.peek = some (ascii '$'))
include hfree hpeek

omit hfree in
theorem bytes_at_dollar : bytes_at cursor = ascii '$' :: (cursor.rest.drop 1).map (·.byte) := by
  unfold bytes_at
  cases hrest : cursor.rest with
  | nil => simp [Cursor.peek, Cursor.peek_nth, hrest] at hpeek
  | cons d rest =>
    have hbyte : d.byte = ascii '$' := by simpa [Cursor.peek, Cursor.peek_nth, hrest] using hpeek
    simp [hbyte]

omit hfree hpeek in
theorem peek_nth_bytes (n : Nat) : cursor.peek_nth n = (bytes_at cursor)[n]? :=
  (List.getElem?_map ..).symm

/-- A delimiter at the cursor is what the scanner searches for behind it. -/
theorem scan_dollar_quote_of_opens (tag : DollarTag features) (h : tag.Opens cursor) :
    scan_dollar_quote features cursor =
      scan_dollar_run tag.delimiter cursor.pos (cursor.pos + tag.delimiter.length)
        (cursor.rest.drop tag.delimiter.length) := by
  have hlength : tag.delimiter.length = tag.bytes.length + 2 := by simp [DollarTag.delimiter]
  have hdelim : (cursor.rest.take (tag.bytes.length + 2)).map (·.byte) = tag.delimiter := by
    rw [List.map_take, ← hlength]
    exact (List.prefix_iff_eq_take.mp h).symm
  obtain ⟨behind, hbehind⟩ := h
  have hclosed : cursor.peek_nth (tag.bytes.length + 1) = some (ascii '$') := by
    rw [peek_nth_bytes, ← hbehind, List.getElem?_append_left (by omega)]
    simp [DollarTag.delimiter]
  rw [bytes_at_dollar hpeek, DollarTag.delimiter, List.cons_append, List.append_assoc] at hbehind
  have hlen := dollar_tag_len_of_opens hfree tag (List.cons.inj hbehind).2.symm
  rw [scan_dollar_quote_eq hpeek]
  dsimp only
  rw [hlen, hclosed, hdelim]
  rfl

/-- Where no delimiter stands the dollar sign is a stray byte. -/
theorem scan_dollar_quote_of_none (h : ∀ tag : DollarTag features, ¬ tag.Opens cursor) :
    scan_dollar_quote features cursor = lex_error .StrayByte cursor.pos (cursor.pos + 1) := by
  rw [scan_dollar_quote_eq hpeek]
  dsimp only
  split
  · rename_i hclosed
    rw [peek_nth_bytes, beq_iff_eq, bytes_at_dollar hpeek, List.getElem?_cons_succ] at hclosed
    obtain ⟨tag, htag⟩ := exists_tag hfree (cursor.rest.drop 1)
    refine absurd ?_ (h tag)
    unfold DollarTag.Opens DollarTag.delimiter
    rw [bytes_at_dollar hpeek, List.prefix_cons_inj, htag, List.map_take]
    obtain ⟨hlt, hget⟩ := List.getElem?_eq_some_iff.mp hclosed
    refine List.prefix_iff_eq_take.mpr ?_
    rw [List.length_append, List.length_take, Nat.min_eq_left hlt.le, List.length_singleton,
      List.take_succ_eq_append_getElem hlt, hget]
  · rfl

/-- The scanner gives what the dollar sign is read as, and nothing else is. -/
theorem scan_dollar_quote_iff (scanned : Scan (Token × Cursor)) :
    scan_dollar_quote features cursor = scanned ↔ DollarQuoted features cursor scanned := by
  have hclosed (tag : DollarTag features) (n : Nat) (hopens : tag.Opens cursor)
      (hcloses : tag.Closes cursor n) (hfirst : ∀ m < n, ¬ tag.Closes cursor m) :
      scan_dollar_quote features cursor = .ok (emit .String cursor
        (cursor.advance_bytes (tag.delimiter.length + n + tag.delimiter.length))) := by
    have hdrop (m : Nat) : ((cursor.rest.drop tag.delimiter.length).map (·.byte)).drop m =
        (bytes_at cursor).drop (tag.delimiter.length + m) := by
      rw [List.map_drop, List.drop_drop]
      rfl
    have hne : tag.delimiter ≠ [] := List.cons_ne_nil _ _
    rw [scan_dollar_quote_of_opens hfree hpeek tag hopens,
      scan_dollar_run_first _ n hne (by rwa [hdrop])
        fun m hm => by rw [hdrop]; exact hfirst m hm, List.drop_drop, ← Nat.add_assoc]
    simp only [emit, Cursor.advance_bytes, Nat.add_assoc]
  have hunterminated (tag : DollarTag features) (hopens : tag.Opens cursor)
      (hnone : ∀ n, ¬ tag.Closes cursor n) : scan_dollar_quote features cursor =
        lex_error .UnterminatedDollarQuote cursor.pos (cursor.pos + cursor.rest.length) := by
    have hle : tag.delimiter.length ≤ cursor.rest.length := by
      simpa [bytes_at] using hopens.length_le
    rw [scan_dollar_quote_of_opens hfree hpeek tag hopens,
      scan_dollar_run_none _ fun n => by
        rw [List.map_drop, List.drop_drop]
        exact hnone n,
      List.length_drop, Nat.add_assoc, Nat.add_sub_cancel' hle]
  constructor
  · rintro rfl
    by_cases hopens : ∃ tag : DollarTag features, tag.Opens cursor
    · obtain ⟨tag, hopens⟩ := hopens
      by_cases hcloses : ∃ n, tag.Closes cursor n
      · classical
        have hfirst (m : Nat) (hm : m < Nat.find hcloses) := Nat.find_min hcloses hm
        rw [hclosed tag _ hopens (Nat.find_spec hcloses) hfirst]
        exact .closed tag _ hopens (Nat.find_spec hcloses) hfirst
      · have hnone (n : Nat) (hn : tag.Closes cursor n) : False := hcloses ⟨n, hn⟩
        rw [hunterminated tag hopens hnone]
        exact .unterminated tag hopens hnone
    · have hnone (tag : DollarTag features) (htag : tag.Opens cursor) : False := hopens ⟨tag, htag⟩
      rw [scan_dollar_quote_of_none hfree hpeek hnone]
      exact .stray hnone
  · intro h
    cases h with
    | closed tag n hopens hcloses hfirst => exact hclosed tag n hopens hcloses hfirst
    | unterminated tag hopens hnone => exact hunterminated tag hopens hnone
    | stray hnone => exact scan_dollar_quote_of_none hfree hpeek hnone

end

/-! ## Offsets -/

/-- The places that a scan names. -/
def offsets : Scan (Token × Cursor) → List Nat
  | .ok (token, stop) => [token.span.start, token.span.stop, stop.pos]
  | .error (.error error) => [error.span.start, error.span.stop]
  | .error .panic => []

theorem dollar_offsets {source : List Char} {cursor : Cursor} (hwithin : Within source cursor)
    (hpeek : cursor.peek = some (ascii '$')) {scanned : Scan (Token × Cursor)}
    (h : DollarQuoted features cursor scanned) : ∀ pos ∈ offsets scanned, Edge source pos := by
  have hdollar : ∃ b rest, cursor.rest = b :: rest ∧ b.byte = ascii '$' := by
    cases hrest : cursor.rest with
    | nil => simp [Cursor.peek, Cursor.peek_nth, hrest] at hpeek
    | cons b rest => exact ⟨b, rest, rfl, by simpa [Cursor.peek, Cursor.peek_nth, hrest] using hpeek⟩
  obtain ⟨b, rest, hrest, hbyte⟩ := hdollar
  have htext := hwithin.isText
  rw [hrest] at htext
  obtain ⟨hchar, hbehind⟩ := htext.ascii (by rw [hbyte]; decide)
  have hstart : Edge source cursor.pos := hwithin.edge (by rw [hrest]; exact hchar)
  cases h with
  | closed tag n hopens hcloses hfirst =>
    -- the last byte of the string is a dollar sign
    obtain ⟨behind, hclosing⟩ := hcloses
    have hlength : tag.delimiter.length = tag.bytes.length + 2 := by simp [DollarTag.delimiter]
    have hlast : (bytes_at cursor)[tag.delimiter.length + n + (tag.bytes.length + 1)]? =
        some (ascii '$') := by
      rw [← List.getElem?_drop, ← hclosing, List.getElem?_append_left (by omega)]
      simp [DollarTag.delimiter]
    obtain ⟨d, hd, hdbyte⟩ := Option.map_eq_some_iff.mp ((List.getElem?_map ..).symm.trans hlast)
    have hlt := (List.getElem?_eq_some_iff.mp hd).1
    have hstop : Edge source
        (cursor.advance_bytes (tag.delimiter.length + n + tag.delimiter.length)).pos := by
      refine (hwithin.moves (.advance_bytes (by omega))).edge ?_
      have hwhole := whole_drop hwithin.isText hd (by rw [hdbyte]; decide)
      rwa [Nat.add_assoc, Nat.add_assoc tag.bytes.length, ← hlength] at hwhole
    simp only [offsets, emit, List.mem_cons, List.not_mem_nil, or_false]
    rintro pos (rfl | rfl | rfl)
    · exact hstart
    · exact hstop
    · exact hstop
  | unterminated tag hopens hnone =>
    have hend : Edge source (cursor.pos + cursor.rest.length) := by
      rw [hwithin.total]
      simp [Edge, is_char_boundary]
    simp only [offsets, lex_error, List.mem_cons, List.not_mem_nil, or_false]
    rintro pos (rfl | rfl)
    · exact hstart
    · exact hend
  | stray hnone =>
    have hnext : Edge source (cursor.pos + 1) := by
      have hmoves := hwithin.moves (.bump cursor)
      have hbump : cursor.bump = ⟨cursor.pos + 1, rest⟩ := by simp [Cursor.bump, hrest]
      rw [hbump] at hmoves
      exact hmoves.edge hbehind
    simp only [offsets, lex_error, List.mem_cons, List.not_mem_nil, or_false]
    rintro pos (rfl | rfl)
    · exact hstart
    · exact hnext

/-! ## The other readings of a dollar sign -/

def without_dollar_quotes (features : FeatureSet) : FeatureSet :=
  { features with
    string_literals := { features.string_literals with dollar_quoted_strings := false } }

theorem eat_identifier_run_without (unicode : Unicode) (n : Nat) (cursor : Cursor) :
    eat_identifier_run unicode (without_dollar_quotes features) n cursor =
      eat_identifier_run unicode features n cursor := by
  induction n generalizing cursor with
  | zero => rfl
  | succ n ih =>
    simp only [eat_identifier_run, ih]
    rfl

theorem scan_parameter_without (unicode : Unicode) (cursor : Cursor) :
    scan_parameter unicode (without_dollar_quotes features) cursor =
      scan_parameter unicode features cursor := by
  simp only [scan_parameter, eat_identifier_continue, eat_identifier_run_without]
  rfl

theorem eat_decimal_run_without (separators strict prev_was_digit : Bool) (pos : Nat)
    (rest : List SourceByte) :
    eat_decimal_run (without_dollar_quotes features) separators strict prev_was_digit pos rest =
      eat_decimal_run features separators strict prev_was_digit pos rest := by
  induction rest generalizing prev_was_digit pos with
  | nil => rfl
  | cons b rest ih =>
    simp only [eat_decimal_run, ih]
    rfl

theorem scan_money_without (cursor : Cursor) :
    scan_money (without_dollar_quotes features) cursor = scan_money features cursor := by
  simp only [scan_money, eat_fixed_point, eat_decimal_digits, eat_decimal_run_without]
  rfl

/-- Where no tag starts, a dollar sign is read as without dollar-quoted strings. -/
theorem scan_dollar_without (unicode : Unicode) (hfree : DollarFree features) {cursor : Cursor}
    (hpeek : cursor.peek = some (ascii '$'))
    (hnone : ∀ tag : DollarTag features, ¬ tag.Opens cursor) :
    scan_dollar unicode features cursor =
      scan_dollar unicode (without_dollar_quotes features) cursor := by
  unfold scan_dollar
  rw [scan_parameter_without, scan_money_without, scan_dollar_quote_of_none hfree hpeek hnone]
  simp only [ite_self]
  rfl

/-! ## The specification -/

theorem BuiltinDialect.dollarFree (dialect : BuiltinDialect) : DollarFree dialect.features := by
  cases dialect <;> exact ⟨by decide, by decide⟩

/-- At a dollar sign the scanner finds the string that the first delimiter like the one there ends,
    names places between characters alone, and leaves the dollar sign to its other readings where
    no tag starts. -/
theorem dollar_quote_spec (unicode : Unicode) (features : FeatureSet) (hfree : DollarFree features)
    (source : List Char) (cursor : Cursor) (hwithin : Within source cursor)
    (hpeek : cursor.peek = some (ascii '$')) :
    (∀ scanned, scan_dollar_quote features cursor = scanned ↔
      DollarQuoted features cursor scanned) ∧
    (∀ pos ∈ offsets (scan_dollar_quote features cursor), Edge source pos) ∧
    ((∀ tag : DollarTag features, ¬ tag.Opens cursor) →
      scan_dollar unicode features cursor =
        scan_dollar unicode (without_dollar_quotes features) cursor) :=
  ⟨scan_dollar_quote_iff hfree hpeek,
    dollar_offsets hwithin hpeek ((scan_dollar_quote_iff hfree hpeek _).mp rfl),
    scan_dollar_without unicode hfree hpeek⟩

theorem dollar_quote_spec_postgres :
    scan_dollar_quote .POSTGRES (.new (encode "$é$a$é$é$".toList)) =
      .ok (emit .String (.new (encode "$é$a$é$é$".toList))
        ((Cursor.new (encode "$é$a$é$é$".toList)).advance_bytes 9)) := by
  let source : List Char := "$é$a$é$é$".toList
  let tag : DollarTag .POSTGRES :=
    ⟨[0xc3, 0xa9], by rintro b ⟨⟩; rfl, by
      intro b hb
      obtain rfl := List.mem_singleton.mp hb
      rfl, by decide⟩
  have hspec := dollar_quote_spec ⟨Char.isAlpha, Char.isAlphanum⟩ .POSTGRES
    (BuiltinDialect.dollarFree .Postgres) source (.new (encode source)) (.refl _) (by decide)
  have hopens : tag.Opens (.new (encode source)) := List.isPrefixOf_iff_prefix.mp (by decide)
  have hcloses : tag.Closes (.new (encode source)) 1 := List.isPrefixOf_iff_prefix.mp (by decide)
  have hfirst (m : Nat) (hm : m < 1) : ¬ tag.Closes (.new (encode source)) m := by
    obtain rfl : m = 0 := by omega
    exact fun h => absurd (List.isPrefixOf_iff_prefix.mpr h) (by decide)
  exact (hspec.1 _).mpr (.closed tag 1 hopens hcloses hfirst)

/-- Where a table makes the dollar sign a byte of names, a tag takes in the sign that closes it. -/
theorem dollar_in_names_stray :
    let features : FeatureSet :=
      { FeatureSet.POSTGRES with
        byte_classes := POSTGRES_BYTE_CLASSES.with_class (ascii '$') CLASS_IDENTIFIER_CONTINUE }
    let cursor : Cursor := .new (encode "$a$b$a$".toList)
    (∃ tag : DollarTag features, tag.Opens cursor ∧ tag.Closes cursor 1) ∧
      scan_dollar_quote features cursor = lex_error .StrayByte 0 1 ∧
      ¬ ∀ scanned, scan_dollar_quote features cursor = scanned ↔
        DollarQuoted features cursor scanned := by
  intro features cursor
  let tag : DollarTag features := ⟨[ascii 'a'], by rintro b ⟨⟩; decide, nofun, by decide⟩
  have hopens : tag.Opens cursor := List.isPrefixOf_iff_prefix.mp (by decide)
  have hcloses : tag.Closes cursor 1 := List.isPrefixOf_iff_prefix.mp (by decide)
  have hstray : scan_dollar_quote features cursor = lex_error .StrayByte 0 1 := by decide
  refine ⟨⟨tag, hopens, hcloses⟩, hstray, fun h => ?_⟩
  have hquoted := (h _).mp hstray
  generalize hscanned : (lex_error .StrayByte 0 1 : Scan (Token × Cursor)) = scanned at hquoted
  cases hquoted with
  | closed => cases hscanned
  | unterminated => cases hscanned
  | stray hnone => exact hnone tag hopens

end squonk.tokenizer.scan
