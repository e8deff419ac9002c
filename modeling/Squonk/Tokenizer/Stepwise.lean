import Squonk.Interner.Basic
import Squonk.Tokenizer.Lossless
import Squonk.Tokenizer.Reading

/-!
# Tokens one by one

The tokens of a source that is written out, one turn of the scanner after the other. A word that is
a keyword is found by its slot, where to evaluate the lookup would compare it with every keyword in
front.
-/

open squonk.dialect squonk.dialect.lex_class squonk.document
open squonk.interner (KEYWORDS)

namespace squonk.tokenizer.scan

theorem lookup_keyword_slot {slot : Nat} {keyword word : String}
    (hslot : KEYWORDS[slot]? = some keyword)
    (hword : word.toList.map Char.toLower = keyword.toList) :
    interner.lookup_keyword word = some slot := by
  obtain ⟨hlt, hget⟩ := List.getElem?_eq_some_iff.mp hslot
  rw [interner.lookup_keyword, List.findIdx?_eq_some_iff_getElem]
  refine ⟨hlt, by simp [hget, hword], ?_⟩
  intro i hi hsame
  rw [hword, beq_iff_eq, String.toList_inj, ← hget] at hsame
  have heq := interner.keywords_nodup.getElem_inj_iff.mp hsame
  omega

theorem scan_word_keyword {unicode : Unicode} {features : FeatureSet} {cursor behind stop : Cursor}
    {slot : Nat} {keyword : String} (hbump : cursor.bump_char = some behind)
    (hstop : eat_identifier_continue unicode features behind = .ok stop)
    (hslot : KEYWORDS[slot]? = some keyword)
    (hword : (chars (cursor.text_until stop)).map Char.toLower = keyword.toList) :
    scan_word unicode features cursor = .ok (emit (.Keyword slot) cursor stop) := by
  have hlookup : interner.lookup_keyword (String.ofList (chars (cursor.text_until stop))) =
      some slot := by
    apply lookup_keyword_slot hslot
    rw [String.toList_ofList]
    exact hword
  rw [scan_word, hbump]
  simp only [bind, Except.bind, hstop, hlookup]
  rfl

theorem scan_token_word {unicode : Unicode} {features : FeatureSet} {cursor : Cursor} {byte : UInt8}
    (hmarked : scan_marked unicode features cursor byte = none)
    (hdelimited : scan_delimited features cursor byte = none)
    (hsigil : scan_sigil unicode features cursor byte = none)
    (hclass : features.has_byte_class byte CLASS_IDENTIFIER_START = true) :
    scan_token unicode features cursor byte = scan_word unicode features cursor := by
  rw [scan_token, hmarked, hdelimited, hsigil, Option.none_or, Option.none_or, Option.getD_none,
    scan_class, if_pos hclass]

/-- A string with the segments that continue it is a string. -/
theorem extend_string_run_kind {scan : QuoteScan} (n : Nat) {continued continued' : Bool}
    {token token' : Token} {c stop : Cursor} (htext : IsText c.rest)
    (hkind : token.kind = .String)
    (h : extend_string_run scan n continued (token, c) = .ok ((token', continued'), stop)) :
    token'.kind = .String := by
  induction n generalizing continued token c with
  | zero =>
    cases h
    exact hkind
  | succ n ih =>
    unfold extend_string_run at h
    dsimp only at h
    split at h
    · rename_i close hclose
      split at h
      · obtain ⟨⟨segment, next⟩, hsegment, hrest⟩ := bind_eq_ok.mp h
        have hgap := Moves.eat_while c fun byte => escape.is_gap ⟨byte, none⟩
        obtain ⟨rfl, hmoves, -⟩ :=
          scan_quoted_body_ok (hgap.isText htext) (continuation_close_ascii hclose) hsegment
        exact ih ((hgap.trans hmoves).isText htext) rfl hrest
      · cases h
        exact hkind
    · cases h
      exact hkind

section
variable {S : Type} {unicode : Unicode} {features : FeatureSet} {sink : TriviaSink S}
  {source : List SourceByte} {cursor stop : Cursor} {trivia trivia' : S} {state state' : LexState}
  {tokens : List Token} {n : Nat}

theorem next_token_eq {byte : UInt8} {scanned : Token × Cursor}
    (htrivia : skip_trivia features sink source cursor trivia state = .ok (stop, trivia', state'))
    (hpeek : stop.peek = some byte)
    (hscanned : scan_token unicode features stop byte = .ok scanned)
    (hchecked : check_nul stop scanned = .ok scanned) :
    next_token unicode features sink source cursor trivia state =
      .ok (some scanned.1, scanned.2, trivia', state') := by
  unfold next_token
  rw [htrivia]
  simp only [bind, Except.bind, hpeek, hscanned, hchecked]
  rfl

theorem collect_some {token : Token} (h : next_token unicode features sink source cursor trivia
      state = .ok (some token, stop, trivia', state')) :
    collect unicode features sink source (n + 1) cursor trivia state tokens =
      collect unicode features sink source n stop trivia' state' (tokens ++ [token]) := by
  rw [collect, h]
  rfl

theorem collect_none (h : next_token unicode features sink source cursor trivia state =
      .ok (none, stop, trivia', state')) :
    collect unicode features sink source (n + 1) cursor trivia state tokens =
      .ok (tokens, trivia') := by
  rw [collect, h]
  rfl

theorem collect_extends (n : Nat) {tokens' : List Token}
    (hread : collect unicode features sink source n cursor trivia state tokens =
      .ok (tokens', trivia')) : tokens <+: tokens' := by
  induction n generalizing cursor trivia state tokens with
  | zero =>
    cases hread
    exact List.prefix_rfl
  | succ n ih =>
    rw [collect] at hread
    obtain ⟨⟨token, stop, between, state'⟩, -, hrest⟩ := bind_eq_ok.mp hread
    cases token with
    | none =>
      cases hrest
      exact List.prefix_rfl
    | some token => exact (List.prefix_append tokens [token]).trans (ih hrest)

end

end squonk.tokenizer.scan
