import Mathlib
import Squonk.Tokenizer.Quoted
import Squonk.Tokenizer.Stepwise

/-!
# Sources of one token

A source is one token when the lexeme at its start takes all of it and no trivia begins there.
-/

open squonk.dialect squonk.dialect.lex_class squonk.document

namespace squonk.tokenizer.scan

section
variable {unicode : Unicode} {features : FeatureSet} {text : List Char} {byte : UInt8}

/-- The bytes that comments begin with. -/
def comment_leads : List UInt8 := [ascii '-', ascii '#', ascii '*', ascii '/']

theorem trivia_run_plain {c : Cursor} (state : LexState) (hpeek : c.peek = some byte)
    (hblank : features.has_byte_class byte CLASS_WHITESPACE = false)
    (hlead : byte ∉ comment_leads) : trivia_run features c state = .ok none := by
  simp only [comment_leads, List.mem_cons, List.not_mem_nil, or_false, not_or] at hlead
  obtain ⟨hdash, hhash, hstar, hslash⟩ := hlead
  unfold trivia_run
  simp only [hpeek, hblank, beq_eq_false_iff_ne.mpr hdash, beq_eq_false_iff_ne.mpr hhash,
    beq_eq_false_iff_ne.mpr hstar, beq_eq_false_iff_ne.mpr hslash, Bool.false_and,
    Bool.false_eq_true, if_false]
  rfl

theorem trivia_run_end {c : Cursor} (state : LexState) (hrest : c.rest = []) :
    trivia_run features c state = .ok none := by
  have hpeek : c.peek = none := by rw [Cursor.peek, Cursor.peek_nth, hrest]; rfl
  unfold trivia_run
  rw [hpeek]
  rfl

theorem skip_trivia_none {c : Cursor} {state : LexState} (source : List SourceByte)
    (h : trivia_run features c state = .ok none) :
    skip_trivia features NoTrivia source c () state = .ok (c, (), state) := by
  unfold skip_trivia
  rw [skip_trivia_loop.eq_def]
  dsimp only
  rw [h]
  rfl

theorem tokenize_with_one {token : Token} (hpeek : (Cursor.new (encode text)).peek = some byte)
    (hblank : features.has_byte_class byte CLASS_WHITESPACE = false)
    (hlead : byte ∉ comment_leads)
    (hscan : scan_token unicode features (.new (encode text)) byte =
      .ok (token, ⟨(encode text).length, []⟩))
    (hnul : (encode text).any (·.byte == 0) = false)
    (hlength : (encode text).length ≤ 2 ^ 32 - 1) :
    tokenize_with unicode text features = .ok [token] := by
  have hsize : (encode text).length ≠ 0 := by
    intro hzero
    rw [List.eq_nil_of_length_eq_zero hzero] at hpeek
    cases hpeek
  have hfirst : next_token unicode features NoTrivia (encode text) (.new (encode text)) () ⟨none⟩ =
      .ok (some token, ⟨(encode text).length, []⟩, (), ⟨none⟩) := by
    have huntil : (Cursor.new (encode text)).text_until ⟨(encode text).length, []⟩ = encode text :=
      List.take_length
    unfold next_token
    rw [skip_trivia_none _ (trivia_run_plain _ hpeek hblank hlead)]
    simp only [bind, Except.bind, hpeek, hscan]
    rw [check_nul_plain (by rw [huntil]; exact hnul)]
    rfl
  have hlast : next_token unicode features NoTrivia (encode text) ⟨(encode text).length, []⟩ ()
      ⟨none⟩ = .ok (none, ⟨(encode text).length, []⟩, (), ⟨none⟩) := by
    unfold next_token
    rw [skip_trivia_none _ (trivia_run_end _ rfl)]
    rfl
  have hcollect : collect unicode features NoTrivia (encode text) ((encode text).length + 1)
      (.new (encode text)) () ⟨none⟩ [] = .ok ([token], ()) := by
    obtain ⟨n, hn⟩ := Nat.exists_eq_succ_of_ne_zero hsize
    rw [collect, hfirst]
    simp only [bind, Except.bind]
    rw [hn, collect, ← hn, hlast]
    rfl
  unfold tokenize_with collect_all
  rw [if_neg (by omega), hcollect]
  rfl

theorem length_le_of_tokenize {tokens : List Token}
    (h : tokenize_with unicode text features = .ok tokens) :
    (encode text).length ≤ 2 ^ 32 - 1 := by
  unfold tokenize_with collect_all at h
  split at h
  · cases h
  · rename_i hlength
    exact Nat.le_of_not_gt hlength

/-- No blank opens a source whose first token stands at its start. -/
theorem first_not_blank {token : Token} {tokens : List Token}
    (h : tokenize_with unicode text features = .ok (token :: tokens)) (hstart : token.span.start = 0)
    (hpeek : (Cursor.new (encode text)).peek = some byte) :
    features.has_byte_class byte CLASS_WHITESPACE = false := by
  unfold tokenize_with collect_all at h
  split at h
  · cases h
  cases hread : collect unicode features NoTrivia (encode text) ((encode text).length + 1)
      (.new (encode text)) () ⟨none⟩ [] with
  | error fault =>
    rw [hread] at h
    cases h
  | ok read =>
    obtain ⟨read, _⟩ := read
    rw [hread] at h
    cases h
    rw [collect] at hread
    obtain ⟨⟨scanned, stop, trivia, state⟩, hnext, hrest⟩ := bind_eq_ok.mp hread
    obtain ⟨start, hskip, hcases⟩ := next_token_cases hnext
    obtain ⟨rfl, -, -, -⟩ | ⟨first, scanned, hfirst, rfl, hscan⟩ := hcases
    · cases hrest
    have hsame : scanned = token := by
      obtain ⟨more, hmore⟩ := collect_extends _ hrest
      exact (List.cons.inj hmore).1
    subst hsame
    have hspan := (scan_token_lexes ((skip_trivia_loop_moves _ (isText_encode text) hskip).isText
      (isText_encode text)) hfirst scanned stop hscan).1
    rw [hspan] at hstart
    obtain ⟨hrun, hhere, -, -⟩ | ⟨kind, next, between, behind, hrun, -, hpast⟩ :=
      skip_trivia_loop_cases hskip
    · by_contra hblank
      rw [Bool.not_eq_false] at hblank
      unfold trivia_run at hrun
      simp only [hpeek, hblank, if_true] at hrun
      cases hrun
    · -- trivia at the start would push the token away from it
      obtain ⟨hmoves, hlt, -⟩ := trivia_run_ok (isText_encode text) hrun
      have hbehind : next.pos ≤ start.pos := by
        obtain ⟨-, rfl, -, -⟩ | ⟨m, -, hloop⟩ := hpast
        · exact Nat.le_refl _
        · exact (skip_trivia_loop_moves _ (hmoves.isText (isText_encode text)) hloop).pos_le
      simp only at hstart
      omega

/-- The first token is scanned at the start, where it stands there. -/
theorem tokenize_with_first {token : Token} {tokens : List Token}
    (h : tokenize_with unicode text features = .ok (token :: tokens)) (hstart : token.span.start = 0) :
    ∃ byte stop, ScannedAt unicode features text token (.new (encode text)) stop byte ∧
      features.has_byte_class byte CLASS_WHITESPACE = false := by
  obtain ⟨-, c, stop, byte, hat⟩ := (tokenize_with_scanned h).2 token (.head _)
  have hpos : c.pos = 0 := by rw [← hstart, hat.span]
  have hnew : c = .new (encode text) := by
    have htotal := hat.within.total
    obtain ⟨passed, hpassed⟩ := hat.within.suffix
    have hlength := congrArg List.length hpassed
    rw [List.length_append] at hlength
    have hnil : passed = [] := List.eq_nil_of_length_eq_zero (by
      simp only [Cursor.new] at hlength
      omega)
    rw [hnil, List.nil_append] at hpassed
    obtain ⟨pos, rest⟩ := c
    obtain rfl : pos = 0 := hpos
    obtain rfl : rest = encode text := hpassed
    rfl
  subst hnew
  exact ⟨byte, stop, hat, first_not_blank h hstart hat.peek⟩

/-- A token that is all of the source leaves nothing behind it. -/
theorem ScannedAt.rest_eq_nil {token : Token} {stop : Cursor}
    (h : ScannedAt unicode features text token (.new (encode text)) stop byte)
    (hspan : token.span = ⟨0, (encode text).length⟩) :
    stop = ⟨(encode text).length, []⟩ := by
  have hstop : stop.pos = (encode text).length := by
    have heq := h.span
    rw [hspan] at heq
    exact (congrArg Span.stop heq).symm
  have htotal := (h.within.moves h.moves).total
  have hnil : stop.rest = [] := List.eq_nil_of_length_eq_zero (by omega)
  obtain ⟨pos, rest⟩ := stop
  obtain rfl : pos = _ := hstop
  obtain rfl : rest = [] := hnil
  rfl

end

end squonk.tokenizer.scan
