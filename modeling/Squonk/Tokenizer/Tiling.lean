import Squonk.Tiling.Basic
import Squonk.Tokenizer.Dispatch

/-!
# Tokens and trivia tile the source

A run of trivia moves forward too, and what a whole scan records, tokens and trivia together,
leaves out no byte of the source.
-/

open squonk.dialect squonk.dialect.lex_class squonk.document tiling

namespace squonk.tokenizer.scan

variable {features : FeatureSet} {unicode : Unicode}

/-! ## Comments -/

theorem skip_block_run_ok {nested silent_eof : Bool} {start : Nat} {stop : Cursor}
    (depth pos : Nat) {rest : List SourceByte} (htext : IsText rest)
    (h : skip_block_run nested silent_eof start depth pos rest = .ok stop) :
    Moves ⟨pos, rest⟩ stop ∧ whole stop.rest = true := by
  have hpair {pos : Nat} {b b' : SourceByte} {rest : List SourceByte} :
      Moves ⟨pos, b :: b' :: rest⟩ ⟨pos + 2, rest⟩ :=
    (Moves.bump ⟨pos, b :: b' :: rest⟩).trans (.bump ⟨pos + 1, b' :: rest⟩)
  fun_induction skip_block_run nested silent_eof start depth pos rest with
  | case1 depth pos hsilent =>
    cases h
    exact ⟨.refl _, rfl⟩
  | case2 depth pos hsilent => cases h
  | case3 depth pos b hsilent =>
    cases h
    exact ⟨.bump ⟨pos, [b]⟩, rfl⟩
  | case4 depth pos b hsilent => cases h
  | case5 depth pos b b' rest hopen ih =>
    obtain ⟨hmoves, hwhole⟩ :=
      ih (htext.of_suffix ((List.suffix_cons b' rest).trans (List.suffix_cons b _))) h
    exact ⟨hpair.trans hmoves, hwhole⟩
  | case6 depth pos b b' rest hopen hclose hlast =>
    cases h
    rw [Bool.and_eq_true, beq_iff_eq, beq_iff_eq] at hclose
    have hrest := htext.of_suffix (List.suffix_cons b (b' :: rest))
    exact ⟨hpair, (hrest.ascii (by rw [hclose.2]; decide)).2⟩
  | case7 depth pos b b' rest hopen hclose hlast ih =>
    obtain ⟨hmoves, hwhole⟩ :=
      ih (htext.of_suffix ((List.suffix_cons b' rest).trans (List.suffix_cons b _))) h
    exact ⟨hpair.trans hmoves, hwhole⟩
  | case8 depth pos b b' rest hopen hclose ih =>
    obtain ⟨hmoves, hwhole⟩ := ih (htext.of_suffix (List.suffix_cons b (b' :: rest))) h
    exact ⟨(Moves.bump ⟨pos, b :: b' :: rest⟩).trans hmoves, hwhole⟩

/-- A comment that ends, from its first byte on. -/
theorem skip_block_comment_ok {nested silent_eof : Bool} {start stop : Cursor}
    (htext : IsText start.rest) (h : skip_block_comment start nested silent_eof = .ok stop) :
    Moves start.bump stop ∧ whole stop.rest = true := by
  have hbump := (Moves.bump start).trans (.bump start.bump)
  obtain ⟨hmoves, hwhole⟩ := skip_block_run_ok 1 _ (hbump.isText htext) h
  exact ⟨(Moves.bump start.bump).trans hmoves, hwhole⟩

theorem skip_discarded_region_ok {region_start : Nat} {nested : Bool} (n : Nat)
    {start stop : Cursor} (htext : IsText start.rest)
    (h : skip_discarded_region region_start nested n start = .ok stop) :
    Moves start stop ∧ whole stop.rest = true := by
  induction n generalizing start with
  | zero => cases h
  | succ n ih =>
    unfold skip_discarded_region at h
    split at h
    · cases h
    split at h
    · rename_i hclose
      cases h
      exact advance_ok htext (peek_of_nth ((Bool.and_eq_true _ _).mp hclose).2) (by decide)
    split at h
    · obtain ⟨next, hnext, hrest⟩ := bind_eq_ok.mp h
      have hcomment := (Moves.bump start).trans (skip_block_comment_ok htext hnext).1
      obtain ⟨hmoves, hwhole⟩ := ih (hcomment.isText htext) hrest
      exact ⟨hcomment.trans hmoves, hwhole⟩
    · obtain ⟨hmoves, hwhole⟩ := ih ((Moves.bump start).isText htext) h
      exact ⟨(Moves.bump start).trans hmoves, hwhole⟩

theorem skip_line_comment_ok {start : Cursor} {marker_len : Nat} {cr_terminates : Bool}
    {byte : UInt8} (htext : IsText start.rest) (hpeek : start.peek_nth marker_len = some byte) :
    Moves (start.advance_bytes (marker_len + 1))
        (skip_line_comment start (marker_len + 1) cr_terminates) ∧
      whole (skip_line_comment start (marker_len + 1) cr_terminates).rest = true := by
  have hmarker : Moves start (start.advance_bytes (marker_len + 1)) :=
    .advance_bytes (length_of_peek_nth hpeek)
  have hmoves := Moves.eat_while (start.advance_bytes (marker_len + 1)) fun byte =>
    byte != 0x0a && !(cr_terminates && byte == 0x0d)
  refine ⟨hmoves, ?_⟩
  have htext' := (hmarker.trans hmoves).isText htext
  cases hstop : (skip_line_comment start (marker_len + 1) cr_terminates).peek with
  | none =>
    have hnil : (skip_line_comment start (marker_len + 1) cr_terminates).rest = [] := by
      simpa [Cursor.peek, Cursor.peek_nth] using hstop
    rw [hnil]
    rfl
  | some byte =>
    have hend := peek_eat_while hstop
    obtain ⟨b, rest, heq, rfl⟩ := peek_eq_some hstop
    rw [heq]
    have hascii : b.byte < 0x80 := by
      have hline : b.byte = 0x0a ∨ b.byte = 0x0d := by
        by_contra hne
        simp [not_or.mp hne] at hend
      rcases hline with hline | hline <;> rw [hline] <;> decide
    have htext'' : IsText (b :: rest) := heq ▸ htext'
    exact (htext''.ascii hascii).1

theorem version_len_le (c : Cursor) :
    version_len c ≤ ((c.rest.take 7).takeWhile fun b => is_ascii_digit b.byte).length := by
  unfold version_len
  generalize ((c.rest.take 7).takeWhile fun b => is_ascii_digit b.byte).length = digits
  rcases digits with _ | _ | _ | _ | _ | _ | _ | digits <;> simp

theorem digits_prefix (c : Cursor) :
    (c.rest.take 7).takeWhile (fun b => is_ascii_digit b.byte) <+: c.rest :=
  (List.takeWhile_prefix _).trans (List.take_prefix 7 c.rest)

/-- The version of a region is made of digits. -/
theorem version_digit {c : Cursor} {n : Nat} (hn : n < version_len c) :
    ∃ byte, c.peek_nth n = some byte ∧ is_ascii_digit byte = true := by
  have hlt := lt_of_lt_of_le hn (version_len_le c)
  obtain ⟨behind, hbehind⟩ := digits_prefix c
  have hget := List.getElem?_eq_getElem hlt
  rw [← @List.getElem?_append_left _ _ behind _ hlt, hbehind] at hget
  have hmem := List.getElem_mem hlt
  exact ⟨_, congrArg (Option.map SourceByte.byte) hget,
    List.mem_takeWhile_imp (p := fun b : SourceByte => is_ascii_digit b.byte) hmem⟩

/-- The marker of a versioned comment and, where its region is discarded, the region. -/
theorem scan_versioned_marker_ok {bound : Nat} {nested : Bool} {state state' : LexState}
    {start stop : Cursor} (htext : IsText start.rest)
    (hmarker : start.peek_nth 2 = some (ascii '!'))
    (h : scan_versioned_marker start bound nested state = .ok (stop, state')) :
    Moves (start.advance_bytes 3) stop ∧ whole stop.rest = true := by
  obtain ⟨hmoves, hwhole⟩ := advance_ok htext hmarker (by decide)
  unfold scan_versioned_marker at h
  dsimp only at h
  generalize start.advance_bytes 3 = marker at hmoves hwhole h ⊢
  have htext' := hmoves.isText htext
  have hbody : Moves marker (marker.advance_bytes (version_len marker)) ∧
      whole (marker.advance_bytes (version_len marker)).rest = true := by
    cases hlen : version_len marker with
    | zero => exact ⟨.refl marker, hwhole⟩
    | succ n =>
      obtain ⟨byte, hbyte, hdigit⟩ := version_digit (c := marker) (n := n) (by omega)
      exact advance_ok htext' hbyte (is_ascii_digit_ascii hdigit)
  split at h
  · obtain ⟨next, hnext, hstop⟩ := bind_eq_ok.mp h
    cases hstop
    obtain ⟨hregion, hwhole'⟩ := skip_discarded_region_ok _ (hbody.1.isText htext') hnext
    exact ⟨hbody.1.trans hregion, hwhole'⟩
  · cases h
    exact hbody

/-! ## Runs of trivia -/

/-- A character begins at the cursor, or no blank does. -/
def Settled (features : FeatureSet) (c : Cursor) : Prop :=
  whole c.rest = true ∨ ∀ byte, c.peek = some byte →
    features.has_byte_class byte CLASS_WHITESPACE = false

theorem has_byte_class_or {byte mask mask' : UInt8}
    (h : features.has_byte_class byte (mask ||| mask') = false) :
    features.has_byte_class byte mask = false := by
  have hclear : features.byte_classes.byte_class byte &&& (mask ||| mask') = 0 :=
    bne_eq_false_iff_eq.mp h
  apply bne_eq_false_iff_eq.mpr
  apply UInt8.toBitVec_inj.mp
  have hbits := congrArg UInt8.toBitVec hclear
  rw [UInt8.toBitVec_and, UInt8.toBitVec_or, BitVec.and_or_distrib_left] at hbits
  exact (BitVec.or_eq_zero_iff.mp hbits).1

/-- Behind a run of blanks no blank is left. -/
theorem settled_eat_while (c : Cursor) :
    Settled features (c.eat_while fun b =>
      features.has_byte_class b (CLASS_WHITESPACE ||| CLASS_WHITESPACE_CONTINUE)) :=
  .inr fun _ hpeek => by
    have hend := peek_eat_while hpeek
    exact has_byte_class_or hend

/-- A run of blanks takes its first byte. -/
theorem lt_eat_while {c : Cursor} {pred : UInt8 → Bool} {byte : UInt8}
    (hpeek : c.peek = some byte) (hpred : pred byte = true) :
    c.pos < (c.eat_while pred).pos := by
  obtain ⟨b, rest, heq, rfl⟩ := peek_eq_some hpeek
  simp [Cursor.eat_while, Cursor.advance_bytes, heq, hpred]

theorem has_byte_class_or_left {byte mask mask' : UInt8}
    (h : features.has_byte_class byte mask = true) :
    features.has_byte_class byte (mask ||| mask') = true := by
  cases hclear : features.has_byte_class byte (mask ||| mask') with
  | true => rfl
  | false => exact absurd (has_byte_class_or hclear) (by simp [h])

theorem lt_advance_bytes (c : Cursor) {n : Nat} (hn : 0 < n) : c.pos < (c.advance_bytes n).pos :=
  Nat.lt_add_of_pos_right hn

/-- A run of trivia takes a byte or more, and where it ends no blank is left. -/
theorem trivia_run_ok {start stop : Cursor} {kind : TriviaKind} {state state' : LexState}
    (htext : IsText start.rest)
    (h : trivia_run features start state = .ok (some (kind, stop, state'))) :
    Moves start stop ∧ start.pos < stop.pos ∧ Settled features stop := by
  have hcomment {next : Cursor} {byte : UInt8} (hpeek : start.peek = some byte)
      (hnext : Moves start.bump next ∧ whole next.rest = true) :
      Moves start next ∧ start.pos < next.pos ∧ Settled features next :=
    ⟨(Moves.bump start).trans hnext.1, lt_of_bump hpeek hnext.1, .inl hnext.2⟩
  have hblock {nested silent_eof : Bool} {next : Cursor} {byte : UInt8}
      (hpeek : start.peek = some byte)
      (hnext : skip_block_comment start nested silent_eof = .ok next) :
      Moves start next ∧ start.pos < next.pos ∧ Settled features next :=
    hcomment hpeek (skip_block_comment_ok htext hnext)
  have hmarker {n : Nat} {next : Cursor} (hn : 0 < n) (hpast : n ≤ start.rest.length)
      (hnext : Moves (start.advance_bytes n) next ∧ whole next.rest = true) :
      Moves start next ∧ start.pos < next.pos ∧ Settled features next :=
    ⟨(Moves.advance_bytes hpast).trans hnext.1,
      (lt_advance_bytes start hn).trans_le hnext.1.pos_le, .inl hnext.2⟩
  unfold trivia_run at h
  dsimp only at h
  cases hpeek : start.peek with
  | none =>
    rw [hpeek] at h
    cases h
  | some byte =>
    rw [hpeek] at h
    dsimp only at h
    split at h
    · rename_i hblank
      cases h
      exact ⟨.eat_while start _, lt_eat_while hpeek (has_byte_class_or_left hblank),
        settled_eat_while start⟩
    split at h
    · rename_i hdashes
      cases h
      have hdash := peek_of_nth ((Bool.and_eq_true _ _).mp hdashes).2
      exact hmarker (by decide) (length_of_peek_nth hdash) (skip_line_comment_ok htext hdash)
    split at h
    · cases h
      exact hmarker (by decide) (length_of_peek_nth hpeek) (skip_line_comment_ok htext hpeek)
    split at h
    · rename_i hclose
      cases h
      obtain ⟨hmoves, hwhole⟩ :=
        advance_ok htext (peek_of_nth ((Bool.and_eq_true _ _).mp hclose).2) (by decide)
      exact ⟨hmoves, lt_advance_bytes start (by decide), .inl hwhole⟩
    split at h
    · split at h
      · split at h
        · rename_i hbang
          obtain ⟨⟨next, state''⟩, hnext, hstop⟩ := bind_eq_ok.mp h
          cases hstop
          have hbang := peek_of_nth hbang
          exact hmarker (by decide) (length_of_peek_nth hbang)
            (scan_versioned_marker_ok htext hbang hnext)
        · obtain ⟨next, hnext, hstop⟩ := bind_eq_ok.mp h
          cases hstop
          exact hblock hpeek hnext
      · obtain ⟨next, hnext, hstop⟩ := bind_eq_ok.mp h
        cases hstop
        exact hblock hpeek hnext
    · cases h

/-- Inside of a character there is no trivia. -/
theorem trivia_run_inside {c : Cursor} {state : LexState} (htext : IsText c.rest)
    (hsettled : Settled features c) (hinside : whole c.rest = false) :
    trivia_run features c state = .ok none := by
  obtain ⟨pos, rest⟩ := c
  cases rest with
  | nil => cases hinside
  | cons b rest =>
    have hblank : features.has_byte_class b.byte CLASS_WHITESPACE = false := by
      rcases hsettled with hwhole | hblank
      · simp [hwhole] at hinside
      · exact hblank b.byte rfl
    have hbyte : 0x80 ≤ b.byte := by
      have hcont := htext.continuation hinside
      simp only [is_continuation, Bool.and_eq_true, decide_eq_true_eq] at hcont
      exact hcont.1
    simp [trivia_run, peek_cons, hblank, not_ascii hbyte (c := '-') (by decide),
      not_ascii hbyte (c := '#') (by decide), not_ascii hbyte (c := '*') (by decide),
      not_ascii hbyte (c := '/') (by decide), pure, Except.pure]

/-! ## The whole source -/

/-- Where the pieces of a source may meet. -/
def Edge (source : List Char) (pos : Nat) : Prop := is_char_boundary (encode source) pos = true

def TriviaRange.ends (self : TriviaRange) : Nat × Nat := (self.span.start, self.span.stop)

def Token.ends (self : Token) : Nat × Nat := (self.span.start, self.span.stop)

/-- The cursor stands in the source. -/
def Within (source : List Char) (c : Cursor) : Prop := Moves (.new (encode source)) c

namespace Within

variable {source : List Char} {c stop : Cursor}

theorem isText (h : Within source c) : IsText c.rest := Moves.isText h (isText_encode source)

theorem moves (h : Within source c) (hmoves : Moves c stop) : Within source stop :=
  Moves.trans h hmoves

theorem total (h : Within source c) : c.pos + c.rest.length = (encode source).length := by
  simpa [Cursor.new] using Moves.total h

theorem edge (h : Within source c) (hwhole : whole c.rest = true) : Edge source c.pos := by
  obtain ⟨front, hfront⟩ := Moves.suffix h
  have htotal := h.total
  have hsource : front ++ c.rest = encode source := hfront
  have hlength : front.length = c.pos := by
    have hsum := congrArg List.length hsource
    simp only [List.length_append] at hsum
    omega
  unfold Edge is_char_boundary
  rw [← hlength, ← hsource, List.drop_left, hwhole]
  simp

end Within

/-- What a turn of the loop over trivia does that does not end in an error. -/
theorem skip_trivia_loop_cases {S : Type} {sink : TriviaSink S} {n : Nat} {sweep : Sweep}
    {c stop : Cursor} {trivia trivia' : S} {state state' : LexState}
    (h : skip_trivia_loop features sink n sweep c trivia state = .ok (stop, trivia', state')) :
    (trivia_run features c state = .ok none ∧ stop = c ∧ trivia' = trivia ∧ state' = state) ∨
    ∃ kind next between behind, trivia_run features c state = .ok (some (kind, next, between)) ∧
      check_run features kind c next sweep = .ok behind ∧
      (n = 0 ∧ stop = next ∧ state' = between ∧ trivia' = (bif sink.RECORDING
          then sink.record trivia ⟨kind, ⟨c.pos, next.pos⟩⟩ else trivia) ∨
        ∃ m, n = m + 1 ∧ skip_trivia_loop features sink m behind next (bif sink.RECORDING
            then sink.record trivia ⟨kind, ⟨c.pos, next.pos⟩⟩ else trivia) between =
          .ok (stop, trivia', state')) := by
  rw [skip_trivia_loop.eq_def] at h
  obtain ⟨run, hrun, hrest⟩ := bind_eq_ok.mp h
  cases run with
  | none =>
    have hstop : c = stop ∧ trivia = trivia' ∧ state = state' := by
      dsimp only at hrest
      split at hrest
      · split at hrest
        · cases hrest
        · cases hrest
          exact ⟨rfl, rfl, rfl⟩
      · cases hrest
        exact ⟨rfl, rfl, rfl⟩
    exact .inl ⟨hrun, hstop.1.symm, hstop.2.1.symm, hstop.2.2.symm⟩
  | some run =>
    obtain ⟨kind, next, between⟩ := run
    obtain ⟨behind, hbehind, hrest⟩ := bind_eq_ok.mp hrest
    refine .inr ⟨kind, next, between, behind, hrun, hbehind, ?_⟩
    cases n with
    | zero =>
      cases hrest
      exact .inl ⟨rfl, rfl, rfl, rfl⟩
    | succ m => exact .inr ⟨m, rfl, hrest⟩

theorem skip_trivia_loop_moves {S : Type} {sink : TriviaSink S} (n : Nat) {sweep : Sweep}
    {c stop : Cursor} {trivia trivia' : S} {state state' : LexState} (htext : IsText c.rest)
    (h : skip_trivia_loop features sink n sweep c trivia state = .ok (stop, trivia', state')) :
    Moves c stop := by
  induction n generalizing sweep c trivia state with
  | zero =>
    obtain ⟨-, rfl, -, -⟩ | ⟨kind, next, between, behind, hrun, -, hnext⟩ :=
      skip_trivia_loop_cases h
    · exact .refl _
    obtain ⟨-, rfl, -, -⟩ | ⟨m, hm, -⟩ := hnext
    · exact (trivia_run_ok htext hrun).1
    · cases hm
  | succ n ih =>
    obtain ⟨-, rfl, -, -⟩ | ⟨kind, next, between, behind, hrun, -, hnext⟩ :=
      skip_trivia_loop_cases h
    · exact .refl _
    obtain ⟨hn, -⟩ | ⟨m, hm, hloop⟩ := hnext
    · cases hn
    obtain rfl : n = m := by omega
    have hmoves := (trivia_run_ok htext hrun).1
    exact hmoves.trans (ih (hmoves.isText htext) hloop)

/-- The trivia in front of a token that starts between characters lies end to end. -/
theorem skip_trivia_loop_tiles {source : List Char} (n : Nat) {sweep : Sweep} {c stop : Cursor}
    {trivia trivia' : List TriviaRange} {state state' : LexState} (hwithin : Within source c)
    (hsettled : Settled features c)
    (h : skip_trivia_loop features Recorded n sweep c trivia state = .ok (stop, trivia', state')) :
    ∃ ranges, trivia' = trivia ++ ranges ∧ Moves c stop ∧
      (whole stop.rest = true →
        whole c.rest = true ∧ Tiles (Edge source) c.pos stop.pos (ranges.map TriviaRange.ends)) := by
  induction n generalizing sweep c trivia state with
  | zero =>
    obtain ⟨-, rfl, rfl, rfl⟩ | ⟨kind, next, between, behind, hrun, -, hnext⟩ :=
      skip_trivia_loop_cases h
    · exact ⟨[], by simp, .refl _, fun hwhole => ⟨hwhole, .nil (hwithin.edge hwhole)⟩⟩
    obtain ⟨-, rfl, -, rfl⟩ | ⟨m, hm, -⟩ := hnext
    · obtain ⟨hmoves, hlt, -⟩ := trivia_run_ok hwithin.isText hrun
      refine ⟨_, rfl, hmoves, fun hwhole => ?_⟩
      have hbefore : whole c.rest = true := by
        by_contra hinside
        rw [trivia_run_inside hwithin.isText hsettled (by simpa using hinside)] at hrun
        cases hrun
      exact ⟨hbefore, .cons (hwithin.edge hbefore) hlt
        (.nil ((hwithin.moves hmoves).edge hwhole))⟩
    · cases hm
  | succ n ih =>
    obtain ⟨-, rfl, rfl, rfl⟩ | ⟨kind, next, between, behind, hrun, -, hnext⟩ :=
      skip_trivia_loop_cases h
    · exact ⟨[], by simp, .refl _, fun hwhole => ⟨hwhole, .nil (hwithin.edge hwhole)⟩⟩
    obtain ⟨hn, -⟩ | ⟨m, hm, hloop⟩ := hnext
    · cases hn
    obtain rfl : n = m := by omega
    obtain ⟨hmoves, hlt, hbehind⟩ := trivia_run_ok hwithin.isText hrun
    obtain ⟨ranges, htrivia, hstop, htiles⟩ := ih (hwithin.moves hmoves) hbehind hloop
    refine ⟨⟨kind, ⟨c.pos, next.pos⟩⟩ :: ranges, ?_, hmoves.trans hstop, fun hwhole => ?_⟩
    · simpa [Recorded] using htrivia
    have hbefore : whole c.rest = true := by
      by_contra hinside
      rw [trivia_run_inside hwithin.isText hsettled (by simpa using hinside)] at hrun
      cases hrun
    exact ⟨hbefore, .cons (hwithin.edge hbefore) hlt (htiles hwhole).2⟩

/-- The byte classes keep characters whole: either no byte of a character outside ASCII is a
    digit, or none inside of a character is a blank. -/
def WholeClasses (features : FeatureSet) : Prop :=
  AsciiDigits features ∨
    ∀ byte, is_continuation byte = true → features.has_byte_class byte CLASS_WHITESPACE = false

theorem WholeClasses.settled (hclasses : WholeClasses features) {start stop : Cursor}
    (htext : IsText start.rest) (hstart : whole start.rest = true)
    (h : Reads features start stop) : Settled features stop := by
  rcases hclasses with hdigits | hblanks
  · exact .inl (h.between hdigits hstart)
  · cases hstop : whole stop.rest with
    | true => exact .inl hstop
    | false =>
      refine .inr fun byte hpeek => ?_
      obtain ⟨b, rest, heq, rfl⟩ := peek_eq_some hpeek
      have htext' := h.isText htext
      rw [heq] at hstop htext'
      exact hblanks b.byte (htext'.continuation hstop)

theorem check_nul_ok {start : Cursor} {scanned scanned' : Token × Cursor}
    (h : check_nul start scanned = .ok scanned') : scanned = scanned' := by
  unfold check_nul at h
  dsimp only at h
  split at h
  · split at h
    · cases h
    · exact Except.ok.inj h
  · split at h
    · cases h
    · exact Except.ok.inj h
  · exact Except.ok.inj h

/-- No token starts inside of a character. -/
theorem whole_of_scan_token {c : Cursor} {byte : UInt8} {scanned : Token × Cursor}
    (htext : IsText c.rest) (hpeek : c.peek = some byte)
    (h : scan_token unicode features c byte = .ok scanned) : whole c.rest = true := by
  by_contra hinside
  rw [Bool.not_eq_true] at hinside
  obtain ⟨b, rest, heq, rfl⟩ := peek_eq_some hpeek
  have hcont : is_continuation b.byte = true := by
    rw [heq] at htext hinside
    exact htext.continuation hinside
  simp only [is_continuation, Bool.and_eq_true, decide_eq_true_eq] at hcont
  have hchar : c.char_at 0 = none := by
    rw [heq] at hinside
    simpa [Cursor.char_at, heq] using hinside
  rw [scan_token_of_char_none hcont.1 hchar] at h
  cases h

/-- What a successful turn of the scanner leaves behind it. -/
theorem next_token_cases {S : Type} {sink : TriviaSink S} {source : List SourceByte}
    {c stop : Cursor} {token : Option Token} {trivia trivia' : S} {state state' : LexState}
    (h : next_token unicode features sink source c trivia state =
      .ok (token, stop, trivia', state')) :
    ∃ start, skip_trivia features sink source c trivia state = .ok (start, trivia', state') ∧
      (token = none ∧ start = stop ∧ start.peek = none ∧ state'.versioned_region_start = none ∨
        ∃ byte scanned, start.peek = some byte ∧ token = some scanned ∧
          scan_token unicode features start byte = .ok (scanned, stop)) := by
  obtain ⟨⟨start, trivia'', state''⟩, htrivia, hrest⟩ := bind_eq_ok.mp h
  dsimp only at hrest
  cases hpeek : start.peek with
  | none =>
    rw [hpeek] at hrest
    dsimp only at hrest
    cases hregion : state''.versioned_region_start with
    | some opener =>
      rw [hregion] at hrest
      cases hrest
    | none =>
      rw [hregion] at hrest
      cases hrest
      exact ⟨_, htrivia, .inl ⟨rfl, rfl, hpeek, hregion⟩⟩
  | some byte =>
    rw [hpeek] at hrest
    obtain ⟨scanned, hscanned, hrest⟩ := bind_eq_ok.mp hrest
    obtain ⟨checked, hchecked, hrest⟩ := bind_eq_ok.mp hrest
    obtain rfl := check_nul_ok hchecked
    cases hrest
    exact ⟨start, htrivia, .inr ⟨byte, scanned.1, hpeek, rfl, hscanned⟩⟩

/-- A turn of the scanner leaves its trivia and its token end to end. -/
theorem next_token_tiles {source : List Char} (hclasses : WholeClasses features) {c stop : Cursor}
    {token : Option Token} {trivia trivia' : List TriviaRange} {state state' : LexState}
    (hwithin : Within source c) (hsettled : Settled features c)
    (h : next_token unicode features Recorded (encode source) c trivia state =
      .ok (token, stop, trivia', state')) :
    ∃ ranges mid, trivia' = trivia ++ ranges ∧
      Tiles (Edge source) c.pos mid (ranges.map TriviaRange.ends) ∧
      (token = none ∧ mid = (encode source).length ∨
        ∃ scanned, token = some scanned ∧ Edge source mid ∧ scanned.ends = (mid, stop.pos) ∧
          mid < stop.pos ∧ Within source stop ∧ Settled features stop) := by
  obtain ⟨start, htrivia, hstart⟩ := next_token_cases h
  obtain ⟨ranges, hranges, hmoves, htiles⟩ := skip_trivia_loop_tiles _ hwithin hsettled htrivia
  have hwithin' := hwithin.moves hmoves
  refine ⟨ranges, start.pos, hranges, ?_⟩
  rcases hstart with ⟨rfl, rfl, hpeek, -⟩ | ⟨byte, scanned, hpeek, rfl, hscanned⟩
  · have hnil : start.rest = [] := by simpa [Cursor.peek, Cursor.peek_nth] using hpeek
    refine ⟨(htiles (by rw [hnil]; rfl)).2, .inl ⟨rfl, ?_⟩⟩
    simpa [hnil] using hwithin'.total
  · have hwhole := whole_of_scan_token hwithin'.isText hpeek hscanned
    obtain ⟨hspan, hlt, hreads⟩ := scan_token_lexes hwithin'.isText hpeek scanned stop hscanned
    refine ⟨(htiles hwhole).2, .inr ⟨scanned, rfl, hwithin'.edge hwhole, ?_, hlt,
      hwithin'.moves hreads.toMoves, hclasses.settled hwithin'.isText hwhole hreads⟩⟩
    rw [Token.ends, hspan]

theorem collect_tiles {source : List Char} (hclasses : WholeClasses features) (n : Nat)
    {c : Cursor} {trivia trivia' : List TriviaRange} {state : LexState}
    {tokens tokens' : List Token} (hwithin : Within source c) (hsettled : Settled features c)
    (hfuel : c.rest.length < n)
    (h : collect unicode features Recorded (encode source) n c trivia state tokens =
      .ok (tokens', trivia')) :
    ∃ read ranges, tokens' = tokens ++ read ∧ trivia' = trivia ++ ranges ∧
      Tiles (Edge source) c.pos (encode source).length
        (merged (read.map Token.ends) (ranges.map TriviaRange.ends)) := by
  induction n generalizing c trivia state tokens with
  | zero => exact absurd hfuel (Nat.not_lt_zero _)
  | succ n ih =>
    rw [collect] at h
    obtain ⟨⟨token, stop, trivia'', state'⟩, hnext, hrest⟩ := bind_eq_ok.mp h
    obtain ⟨ranges, mid, rfl, htiles, ⟨rfl, rfl⟩ | ⟨scanned, rfl, hedge, hends, hlt, hwithin',
      hsettled'⟩⟩ := next_token_tiles hclasses hwithin hsettled hnext
    · cases hrest
      exact ⟨[], ranges, by simp, rfl, by simpa using htiles⟩
    · have hfuel' : stop.rest.length < n := by
        have hbefore := hwithin.total
        have hbehind := hwithin'.total
        have hle := htiles.le
        omega
      obtain ⟨read, ranges', htokens, rfl, hrest'⟩ := ih hwithin' hsettled' hfuel' hrest
      refine ⟨scanned :: read, ranges ++ ranges', by simpa using htokens, by simp, ?_⟩
      rw [List.map_cons, List.map_append, hends]
      exact htiles.append_right (hrest'.cons_left hedge hlt)

end squonk.tokenizer.scan
