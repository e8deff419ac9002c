import Squonk.OnDemand.Basic
import Squonk.Tokenizer.Lossless
import Squonk.Tokenizer.Stream

/-!
# The streaming cursor reads what the eager one reads

The scanner is a producer of tokens that notes trivia on the side. The buffer of a streaming
cursor is a window on what it has produced so far.
-/

open squonk.dialect squonk.document on_demand

namespace squonk.tokenizer.scan

variable {unicode : Unicode} {features : FeatureSet}

/-! ## The scanner as a producer -/

/-- The scanner: a turn reads a token and notes the trivia in front of it. -/
def scanner (unicode : Unicode) (features : FeatureSet) (source : List SourceByte) :
    Producer (Cursor × LexState) Token TriviaRange Fault :=
  fun (cursor, lex) =>
    (trivia_before features source cursor lex,
      match next_token unicode features NoTrivia source cursor () lex with
      | .ok (some token, stop, _, lex) => .item token (stop, lex)
      | .ok (none, _, _, _) => .finished
      | .error fault => .fault fault)

theorem trivia_passed_none {n : Nat} {sweep : Sweep} {c : Cursor} {state : LexState}
    (hrun : trivia_run features c state = .ok none) :
    trivia_passed features n sweep c state = [] := by
  rw [trivia_passed.eq_def]
  dsimp only
  rw [hrun]

theorem trivia_passed_some {n : Nat} {sweep behind : Sweep} {c next : Cursor}
    {state between : LexState} {kind : TriviaKind}
    (hrun : trivia_run features c state = .ok (some (kind, next, between)))
    (hcheck : check_run features kind c next sweep = .ok behind) :
    trivia_passed features n sweep c state =
      ⟨kind, ⟨c.pos, next.pos⟩⟩ ::
        match n with
        | 0 => []
        | n + 1 => trivia_passed features n behind next between := by
  rw [trivia_passed.eq_def]
  cases n with
  | zero => simp only [hrun, hcheck]
  | succ n => simp only [hrun, hcheck]

theorem skip_trivia_loop_passed (n : Nat) {sweep : Sweep} {c stop : Cursor}
    {trivia trivia' : List TriviaRange} {state state' : LexState}
    (h : skip_trivia_loop features Recorded n sweep c trivia state = .ok (stop, trivia', state')) :
    trivia' = trivia ++ trivia_passed features n sweep c state := by
  induction n generalizing sweep c trivia state with
  | zero =>
    obtain ⟨hrun, -, rfl, -⟩ | ⟨kind, next, between, behind, hrun, hcheck, hnext⟩ :=
      skip_trivia_loop_cases h
    · rw [trivia_passed_none hrun, List.append_nil]
    obtain ⟨-, -, -, rfl⟩ | ⟨m, hm, -⟩ := hnext
    · rw [trivia_passed_some hrun hcheck]
      rfl
    · cases hm
  | succ n ih =>
    obtain ⟨hrun, -, rfl, -⟩ | ⟨kind, next, between, behind, hrun, hcheck, hnext⟩ :=
      skip_trivia_loop_cases h
    · rw [trivia_passed_none hrun, List.append_nil]
    obtain ⟨hn, -⟩ | ⟨m, hm, hloop⟩ := hnext
    · cases hn
    obtain rfl : n = m := by omega
    rw [ih hloop, trivia_passed_some hrun hcheck]
    simp [Recorded]

/-- What the sink of a turn holds behind it is what the scanner notes in the turn. -/
theorem next_token_into_snd (unicode : Unicode) (features : FeatureSet) {S : Type} (sink : TriviaSink S) (source : List SourceByte)
    (c : Cursor) (trivia : S) (lex : LexState) :
    (next_token_into unicode features sink source c trivia lex).2 =
      sink.give trivia (scanner unicode features source (c, lex)).1 := by
  unfold next_token_into
  cases hnext : next_token unicode features sink source c trivia lex with
  | error fault => rfl
  | ok scanned =>
    obtain ⟨token, stop, trivia', lex'⟩ := scanned
    rw [next_token_give] at hnext
    cases hrecorded : next_token unicode features Recorded source c [] lex with
    | error fault =>
      rw [hrecorded] at hnext
      cases hnext
    | ok recorded =>
      obtain ⟨token', stop', ranges, lex''⟩ := recorded
      obtain ⟨start, htrivia, -⟩ := next_token_cases hrecorded
      rw [hrecorded] at hnext
      cases hnext
      have hpassed := skip_trivia_loop_passed _ htrivia
      rw [List.nil_append] at hpassed
      rw [hpassed]
      rfl

theorem next_token_into_fst (unicode : Unicode) (features : FeatureSet) {S : Type} (sink : TriviaSink S) (source : List SourceByte)
    (c : Cursor) (trivia : S) (lex : LexState) :
    (∃ token stop lex', (scanner unicode features source (c, lex)).2 = .item token (stop, lex') ∧
      (next_token_into unicode features sink source c trivia lex).1 =
        .ok (some token, stop, lex')) ∨
    (∃ stop lex', (scanner unicode features source (c, lex)).2 = .finished ∧
      (next_token_into unicode features sink source c trivia lex).1 = .ok (none, stop, lex')) ∨
    ∃ fault, (scanner unicode features source (c, lex)).2 = .fault fault ∧
      (next_token_into unicode features sink source c trivia lex).1 = .error fault := by
  unfold next_token_into scanner
  dsimp only
  rw [next_token_give sink, next_token_give NoTrivia]
  cases next_token unicode features Recorded source c [] lex with
  | error fault => exact .inr (.inr ⟨fault, rfl, rfl⟩)
  | ok scanned =>
    obtain ⟨token, stop, ranges, lex'⟩ := scanned
    cases token with
    | none => exact .inr (.inl ⟨stop, lex', rfl, rfl⟩)
    | some token => exact .inl ⟨token, stop, lex', rfl, rfl⟩

/-! ## What has been produced -/

/-- The state a source is read from. -/
def first_state (source : List SourceByte) : Cursor × LexState := (.new source, ⟨none⟩)

/-- Where the scanner of a cursor is when it has produced `made` and answered questions about
    the first `asked` places: it goes on, it has found the end, or it has failed. -/
inductive Progress (unicode : Unicode) (features : FeatureSet) (source : List SourceByte)
    (made : List Token) (asked : Nat) : Stream → Prop
  | more {stream : Stream} : stream.src = source → stream.reached_eof = false →
      stream.lex_error = none → asked = made.length →
      Makes (scanner unicode features source) (first_state source) made
        (stream.cursor, stream.lex) →
      Progress unicode features source made asked stream
  | eof {stream : Stream} {s : Cursor × LexState} : stream.src = source →
      stream.reached_eof = true → stream.lex_error = none → made.length < asked →
      Makes (scanner unicode features source) (first_state source) made s →
      (scanner unicode features source s).2 = .finished →
      Progress unicode features source made asked stream
  | failed {stream : Stream} {s : Cursor × LexState} {fault : Fault} : stream.src = source →
      stream.lex_error = some fault → made.length < asked →
      Makes (scanner unicode features source) (first_state source) made s →
      (scanner unicode features source s).2 = .fault fault →
      Progress unicode features source made asked stream

section
variable {source : List SourceByte}

/-- What stands at a place of the source. -/
def token_at (unicode : Unicode) (features : FeatureSet) (source : List SourceByte) (n : Nat) :
    Scan (Option Token) :=
  item_at (scanner unicode features source) n (first_state source)

/-- The trivia noted by the questions about the first `n` places. -/
def trivia_upto (unicode : Unicode) (features : FeatureSet) (source : List SourceByte) (n : Nat) :
    List TriviaRange :=
  noted (scanner unicode features source) n (first_state source)

namespace Progress

variable {made : List Token} {asked : Nat} {stream : Stream}

theorem length_le (h : Progress unicode features source made asked stream) :
    made.length ≤ asked := by
  cases h with
  | more _ _ _ hasked _ => exact hasked.ge
  | eof _ _ _ hasked _ _ => exact hasked.le
  | failed _ _ hasked _ _ => exact hasked.le

theorem token_at_of_lt (h : Progress unicode features source made asked stream) {n : Nat}
    (hn : n < made.length) : token_at unicode features source n = .ok (some made[n]) := by
  cases h with
  | more _ _ _ _ hmakes => exact hmakes.item_at_of_lt hn
  | eof _ _ _ _ hmakes _ => exact hmakes.item_at_of_lt hn
  | failed _ _ _ hmakes _ => exact hmakes.item_at_of_lt hn

/-- What stands at a place asked about. -/
theorem token_at_eq (h : Progress unicode features source made asked stream) {n : Nat}
    (hn : n < asked) :
    stream.lex_error = none ∧ token_at unicode features source n = .ok made[n]? ∨
      ∃ fault, stream.lex_error = some fault ∧
        (made.length ≤ n → token_at unicode features source n = .error fault) := by
  cases h with
  | more _ _ herror hasked hmakes =>
    have hlt : n < made.length := hasked ▸ hn
    exact .inl ⟨herror, (hmakes.item_at_of_lt hlt).trans (by rw [List.getElem?_eq_getElem hlt])⟩
  | eof _ _ herror _ hmakes hend => exact .inl ⟨herror, hmakes.item_at_of_finished hend n⟩
  | failed _ herror _ hmakes hend =>
    exact .inr ⟨_, herror, fun hle => hmakes.item_at_of_fault hend hle⟩

theorem length_lt (h : Progress unicode features source made asked stream) {fault : Fault}
    (herror : stream.lex_error = some fault) : made.length < asked := by
  cases h with
  | more _ _ hnone _ _ =>
    rw [hnone] at herror
    cases herror
  | eof _ _ _ hasked _ _ => exact hasked
  | failed _ _ hasked _ _ => exact hasked

/-- At the end there is nothing more to note. -/
theorem noted_end {s : Cursor × LexState}
    (hmakes : Makes (scanner unicode features source) (first_state source) made s)
    (hend : on_demand.Ends (scanner unicode features source) s) {m n : Nat} (hm : made.length < m)
    (hn : made.length < n) :
    trivia_upto unicode features source m = trivia_upto unicode features source n := by
  obtain ⟨i, rfl⟩ := Nat.exists_eq_add_of_lt hm
  obtain ⟨j, rfl⟩ := Nat.exists_eq_add_of_lt hn
  unfold trivia_upto
  rw [Nat.add_assoc, Nat.add_assoc, hmakes.noted_add (i + 1), hmakes.noted_add (j + 1),
    noted_ends hend, noted_ends hend]

end Progress

/-- The scan loop asks for `n` places more. -/
theorem scan_turns_progress {S : Type} (sink : TriviaSink S) (n : Nat) {made : List Token}
    {stream : Stream} (buffer : List Token) (trivia : S)
    (h : Progress unicode features source made made.length stream) :
    ∃ new result stream', scan_turns unicode features sink n stream buffer trivia =
        (result, stream', buffer ++ new,
          sink.give trivia (noted (scanner unicode features source) n
            (stream.cursor, stream.lex))) ∧
      Progress unicode features source (made ++ new) (made.length + n) stream' ∧
      (result = .ok () ∧ stream'.lex_error = none ∨
        ∃ fault, result = .error fault ∧ stream'.lex_error = some fault) := by
  induction n generalizing made stream buffer trivia with
  | zero =>
    cases h with
    | more hsrc heof herror hasked hmakes =>
      refine ⟨[], .ok (), stream, ?_, ?_, .inl ⟨rfl, herror⟩⟩
      · rw [scan_turns, List.append_nil, noted, give_nil]
      · rw [List.append_nil]
        exact .more hsrc heof herror rfl hmakes
    | eof _ _ _ hasked _ _ => exact absurd hasked (Nat.lt_irrefl _)
    | failed _ _ hasked _ _ => exact absurd hasked (Nat.lt_irrefl _)
  | succ n ih =>
    cases h with
    | more hsrc heof herror hasked hmakes =>
      have hsnd := next_token_into_snd unicode features sink source stream.cursor trivia stream.lex
      obtain ⟨token, stop, lex, hstep, hfst⟩ | ⟨stop, lex, hstep, hfst⟩ | ⟨fault, hstep, hfst⟩ :=
        next_token_into_fst unicode features sink source stream.cursor trivia stream.lex
      · have hnext : Progress unicode features source (made ++ [token]) (made ++ [token]).length
            { stream with cursor := stop, lex := lex } :=
          .more hsrc heof herror rfl (hmakes.snoc hstep)
        obtain ⟨new, result, stream', hturns, hprogress, hresult⟩ :=
          ih (buffer ++ [token])
            (sink.give trivia (scanner unicode features source (stream.cursor, stream.lex)).1) hnext
        refine ⟨token :: new, result, stream', ?_, ?_, hresult⟩
        · rw [scan_turns, heof, hsrc, ← Prod.mk.eta (p := next_token_into _ _ _ _ _ _ _), hfst,
            hsnd, noted_item hstep, give_append]
          simpa [hsrc, heof] using hturns
        · have hlength : (made ++ [token]).length + n = made.length + (n + 1) := by
            simp only [List.length_append, List.length_singleton]
            omega
          rw [hlength] at hprogress
          simpa using hprogress
      · refine ⟨[], .ok (), { stream with cursor := stop, lex := lex, reached_eof := true }, ?_, ?_,
          .inl ⟨rfl, herror⟩⟩
        · rw [scan_turns, heof, hsrc, ← Prod.mk.eta (p := next_token_into _ _ _ _ _ _ _), hfst,
            hsnd, noted_ends (ends_finished hstep)]
          simp
        · rw [List.append_nil]
          exact .eof hsrc rfl herror (by omega) hmakes hstep
      · refine ⟨[], .error fault, { stream with lex_error := some fault }, ?_, ?_,
          .inr ⟨fault, rfl, rfl⟩⟩
        · rw [scan_turns, heof, hsrc, ← Prod.mk.eta (p := next_token_into _ _ _ _ _ _ _), hfst,
            hsnd, noted_ends (ends_fault hstep)]
          simp
        · rw [List.append_nil]
          exact .failed hsrc rfl (by omega) hmakes hstep
    | eof _ _ _ hasked _ _ => exact absurd hasked (Nat.lt_irrefl _)
    | failed _ _ hasked _ _ => exact absurd hasked (Nat.lt_irrefl _)

theorem scan_turns_eof {S : Type} (sink : TriviaSink S) (n : Nat) {stream : Stream}
    (buffer : List Token) (trivia : S) (h : stream.reached_eof = true) :
    scan_turns unicode features sink n stream buffer trivia = (.ok (), stream, buffer, trivia) := by
  cases n with
  | zero => rfl
  | succ n => rw [scan_turns, h, if_pos rfl]

/-! ## The window -/

/-- The cursor is a window on what the scanner has produced, and stands where the reader does. -/
structure Follows (unicode : Unicode) (features : FeatureSet) (source : List SourceByte)
    (capture : Bool) (cursor : BufferedTokenCursor) (reader : Reader) (stream : Stream)
    (gone : List Token) : Prop where
  source_eq : cursor.source = .Stream stream
  features_eq : cursor.features = some features
  progress : Progress unicode features source (gone ++ cursor.buffer) reader.asked stream
  gone_length : gone.length = cursor.buffer_start
  start_eq : cursor.buffer_start = reader.start
  pos_eq : cursor.pos = reader.pos
  start_le : reader.start ≤ reader.pos
  pos_le : reader.pos ≤ reader.seen
  seen_le : reader.seen ≤ (gone ++ cursor.buffer).length
  trivia_eq : cursor.trivia =
    bif capture then some (trivia_upto unicode features source reader.asked) else none

namespace Follows

variable {capture : Bool} {cursor : BufferedTokenCursor} {reader : Reader} {stream : Stream}
  {gone : List Token}

/-- The buffer holds what has been produced and not let go of. -/
theorem buffered_token_eq
    (h : Follows unicode features source capture cursor reader stream gone) {index : Nat}
    (hindex : reader.start ≤ index) :
    cursor.buffered_token index = (gone ++ cursor.buffer)[index]? := by
  have hstart : cursor.buffer_start ≤ index := h.start_eq ▸ hindex
  unfold BufferedTokenCursor.buffered_token
  rw [if_neg (Nat.not_lt.mpr hstart), List.getElem?_append_right (by rw [h.gone_length]; exact hstart),
    h.gone_length]

theorem scan_loop_eq
    (h : Follows unicode features source capture cursor reader stream gone) {target : Nat}
    (htarget : (gone ++ cursor.buffer).length ≤ target) {S : Type} (sink : TriviaSink S)
    (trivia : S) :
    ∃ new extra result stream', cursor.scan_loop unicode target sink trivia =
        (result,
          { cursor with source := .Stream stream', buffer := cursor.buffer ++ new },
          sink.give trivia extra) ∧
      Progress unicode features source (gone ++ (cursor.buffer ++ new)) (reader.ask target).asked
        stream' ∧
      trivia_upto unicode features source (reader.ask target).asked =
        trivia_upto unicode features source reader.asked ++ extra ∧
      (result = .ok () ∧ stream'.lex_error = none ∨
        ∃ fault, result = .error fault ∧ stream'.lex_error = some fault ∧
          (gone ++ (cursor.buffer ++ new)).length ≤ target) := by
  have hlength : cursor.buffer_start + cursor.buffer.length = (gone ++ cursor.buffer).length := by
    rw [List.length_append, h.gone_length]
  have hprogress := h.progress
  unfold BufferedTokenCursor.scan_loop
  rw [h.source_eq]
  dsimp only
  rw [h.features_eq]
  dsimp only
  rw [hlength]
  cases hprogress with
  | more hsrc heof herror hasked hmakes =>
    obtain ⟨n, hn⟩ := Nat.exists_eq_add_of_le (Nat.le_succ_of_le htarget)
    have hmore : Progress unicode features source (gone ++ cursor.buffer)
        (gone ++ cursor.buffer).length stream := .more hsrc heof herror rfl hmakes
    obtain ⟨new, result, stream', hturns, hprogress', hresult⟩ :=
      scan_turns_progress sink n cursor.buffer trivia hmore
    have hask : (reader.ask target).asked = (gone ++ cursor.buffer).length + n := by
      simp only [Reader.ask]
      omega
    refine ⟨new, noted (scanner unicode features source) n (stream.cursor, stream.lex), result,
      stream', ?_, ?_, ?_, ?_⟩
    · have hcount : target + 1 - (gone ++ cursor.buffer).length = n := by omega
      rw [herror, hcount]
      dsimp only
      rw [hturns]
    · rw [hask, ← List.append_assoc]
      exact hprogress'
    · rw [hask, hasked]
      exact hmakes.noted_add n
    · refine hresult.imp_right fun ⟨fault, hfault, hsome⟩ => ⟨fault, hfault, hsome, ?_⟩
      have hlt := hprogress'.length_lt hsome
      rw [List.append_assoc] at hlt
      omega
  | eof hsrc heof herror hasked hmakes hend =>
    have hask : (gone ++ cursor.buffer).length < (reader.ask target).asked :=
      lt_of_lt_of_le hasked (Nat.le_max_left _ _)
    refine ⟨[], [], .ok (), stream, ?_, ?_, ?_, .inl ⟨rfl, herror⟩⟩
    · rw [herror, scan_turns_eof sink _ _ _ heof, give_nil, List.append_nil]
    · rw [List.append_nil]
      exact .eof hsrc heof herror hask hmakes hend
    · rw [List.append_nil]
      exact Progress.noted_end hmakes (ends_finished hend) hask hasked
  | @failed s fault hsrc herror hasked hmakes hend =>
    have hask : (gone ++ cursor.buffer).length < (reader.ask target).asked :=
      lt_of_lt_of_le hasked (Nat.le_max_left _ _)
    refine ⟨[], [], .error fault, stream, ?_, ?_, ?_,
      .inr ⟨fault, rfl, herror, by rwa [List.append_nil]⟩⟩
    · rw [herror, give_nil, List.append_nil, ← h.source_eq, ← h.features_eq]
    · rw [List.append_nil]
      exact .failed hsrc herror hask hmakes hend
    · rw [List.append_nil]
      exact Progress.noted_end hmakes (ends_fault hend) hask hasked

/-- The window when the scan loop has put more into the buffer. -/
theorem grown (h : Follows unicode features source capture cursor reader stream gone)
    {target : Nat} {new : List Token} {extra : List TriviaRange} {stream' : Stream}
    (hprogress : Progress unicode features source (gone ++ (cursor.buffer ++ new))
      (reader.ask target).asked stream')
    (hextra : trivia_upto unicode features source (reader.ask target).asked =
      trivia_upto unicode features source reader.asked ++ extra) :
    Follows unicode features source capture
      { cursor with
        source := .Stream stream', buffer := cursor.buffer ++ new
        trivia := bif capture then
          some (trivia_upto unicode features source reader.asked ++ extra) else none }
      (reader.ask target) stream' gone := by
  refine ⟨rfl, h.features_eq, hprogress, h.gone_length, h.start_eq, h.pos_eq, h.start_le,
    h.pos_le, ?_, by rw [hextra]⟩
  have hseen := h.seen_le
  simp only [Reader.ask, List.length_append] at hseen ⊢
  omega

theorem fill_through_follows
    (h : Follows unicode features source capture cursor reader stream gone) {target : Nat}
    (htarget : (gone ++ cursor.buffer).length ≤ target) :
    ∃ result cursor' stream', cursor.fill_through unicode target = (result, cursor') ∧
      Follows unicode features source capture cursor' (reader.ask target) stream' gone ∧
      (result = .ok () ∧
          token_at unicode features source target = .ok (cursor'.buffered_token target) ∨
        ∃ fault, result = .error fault ∧
          token_at unicode features source target = .error fault) := by
  have hfilled : ∃ new extra result stream', cursor.fill_through unicode target =
        (result, { cursor with
          source := .Stream stream', buffer := cursor.buffer ++ new
          trivia := bif capture then
            some (trivia_upto unicode features source reader.asked ++ extra) else none }) ∧
      Progress unicode features source (gone ++ (cursor.buffer ++ new)) (reader.ask target).asked
        stream' ∧
      trivia_upto unicode features source (reader.ask target).asked =
        trivia_upto unicode features source reader.asked ++ extra ∧
      (result = .ok () ∧ stream'.lex_error = none ∨
        ∃ fault, result = .error fault ∧ stream'.lex_error = some fault ∧
          (gone ++ (cursor.buffer ++ new)).length ≤ target) := by
    have htrivia := h.trivia_eq
    unfold BufferedTokenCursor.fill_through
    cases capture with
    | true =>
      obtain ⟨new, extra, result, stream', hloop, hrest⟩ :=
        h.scan_loop_eq htarget Recorded (trivia_upto unicode features source reader.asked)
      refine ⟨new, extra, result, stream', ?_, hrest⟩
      rw [htrivia]
      dsimp only [cond_true]
      rw [hloop, give_recorded]
    | false =>
      obtain ⟨new, extra, result, stream', hloop, hrest⟩ := h.scan_loop_eq htarget NoTrivia ()
      refine ⟨new, extra, result, stream', ?_, hrest⟩
      rw [cond_false] at htrivia
      rw [htrivia]
      dsimp only [cond_false]
      rw [hloop]
      dsimp only
      rw [htrivia]
  obtain ⟨new, extra, result, stream', hturn, hprogress, hextra, hresult⟩ := hfilled
  have hnext := h.grown hprogress hextra
  refine ⟨result, _, stream', hturn, hnext, ?_⟩
  have hasked : target < (reader.ask target).asked := Nat.le_max_right _ _
  have hstart : (reader.ask target).start ≤ target := by
    have hseen := h.seen_le
    have hpos := h.pos_le
    have hle := h.start_le
    simp only [Reader.ask]
    omega
  obtain ⟨hok, hnone⟩ | ⟨fault, hfault, hsome, hle⟩ := hresult
  · obtain ⟨-, hitem⟩ | ⟨fault, hsome, -⟩ := hprogress.token_at_eq hasked
    · exact .inl ⟨hok, hitem.trans (congrArg Except.ok (hnext.buffered_token_eq hstart).symm)⟩
    · rw [hnone] at hsome
      cases hsome
  · obtain ⟨hnone, -⟩ | ⟨fault', hsome', hitem⟩ := hprogress.token_at_eq hasked
    · rw [hsome] at hnone
      cases hnone
    · obtain rfl : fault = fault' := Option.some.inj (hsome.symm.trans hsome')
      exact .inr ⟨fault, hfault, hitem hle⟩

/-- A look ahead finds what stands there. -/
theorem peek_nth_follows
    (h : Follows unicode features source capture cursor reader stream gone) (n : Nat) :
    ∃ cursor' stream', cursor.peek_nth unicode n =
        (token_at unicode features source (reader.pos + n), cursor') ∧
      Follows unicode features source capture cursor' (reader.ask (reader.pos + n)) stream'
        gone := by
  have hstart : reader.start ≤ reader.pos + n := Nat.le_add_right_of_le h.start_le
  have hbuffered := h.buffered_token_eq hstart
  unfold BufferedTokenCursor.peek_nth
  rw [h.source_eq, h.pos_eq]
  dsimp only
  by_cases hlt : reader.pos + n < (gone ++ cursor.buffer).length
  · rw [hbuffered, List.getElem?_eq_getElem hlt]
    refine ⟨cursor, stream, ?_, ?_⟩
    · rw [h.progress.token_at_of_lt hlt]
    · have hask : reader.ask (reader.pos + n) = reader := by
        have hle := h.progress.length_le
        unfold Reader.ask
        rw [max_eq_left (by omega)]
      rw [hask]
      exact h
  · rw [hbuffered, List.getElem?_eq_none (Nat.le_of_not_lt hlt)]
    obtain ⟨result, cursor', stream', hfill, hfollows, hresult⟩ :=
      h.fill_through_follows (Nat.le_of_not_lt hlt)
    refine ⟨cursor', stream', ?_, hfollows⟩
    rw [hfill]
    obtain ⟨rfl, hitem⟩ | ⟨fault, rfl, hitem⟩ := hresult
    · rw [hitem]
    · rw [hitem]

theorem advance_follows
    (h : Follows unicode features source capture cursor reader stream gone) :
    ∃ cursor' stream', cursor.advance unicode =
        (token_at unicode features source reader.pos, cursor') ∧
      Follows unicode features source capture cursor'
        (reader.perform (scanner unicode features source) (first_state source) .advance).2 stream'
        gone := by
  obtain ⟨cursor', stream', hpeek, hfollows⟩ := h.peek_nth_follows 0
  rw [Nat.add_zero] at hpeek hfollows
  unfold BufferedTokenCursor.advance BufferedTokenCursor.peek
  rw [hpeek]
  cases hitem : token_at unicode features source reader.pos with
  | error fault =>
    refine ⟨cursor', stream', rfl, ?_⟩
    rw [Reader.advance_stop fun t heq => by cases hitem.symm.trans heq]
    exact hfollows
  | ok item =>
    cases item with
    | none =>
      refine ⟨cursor', stream', rfl, ?_⟩
      rw [Reader.advance_stop fun t heq => by cases hitem.symm.trans heq]
      exact hfollows
    | some token =>
      refine ⟨{ cursor' with pos := cursor'.pos + 1 }, stream', rfl, ?_⟩
      rw [Reader.advance_item hitem]
      have hlt : reader.pos < (gone ++ cursor'.buffer).length := by
        by_contra hle
        have hasked : reader.pos < (reader.ask reader.pos).asked := Nat.le_max_right _ _
        obtain ⟨-, hnone⟩ | ⟨fault, -, herror⟩ := hfollows.progress.token_at_eq hasked
        · rw [List.getElem?_eq_none (Nat.le_of_not_lt hle), hitem] at hnone
          cases hnone
        · rw [herror (Nat.le_of_not_lt hle)] at hitem
          cases hitem
      refine ⟨hfollows.source_eq, hfollows.features_eq, hfollows.progress, hfollows.gone_length,
        hfollows.start_eq, congrArg (· + 1) hfollows.pos_eq,
        Nat.le_succ_of_le hfollows.start_le, Nat.le_max_right _ _, ?_, hfollows.trivia_eq⟩
      exact max_le hfollows.seen_le hlt

theorem seek_follows
    (h : Follows unicode features source capture cursor reader stream gone) {pos : Nat}
    (hallowed : reader.Allows (.seek pos)) :
    Follows unicode features source capture (cursor.seek pos) { reader with pos := pos } stream
      gone :=
  ⟨h.source_eq, h.features_eq, h.progress, h.gone_length, h.start_eq, rfl, hallowed.1, hallowed.2,
    h.seen_le, h.trivia_eq⟩

theorem preceding_eq
    (h : Follows unicode features source capture cursor reader stream gone) :
    cursor.preceding =
      reader.last_consumed (scanner unicode features source) (first_state source) := by
  have hseen := h.seen_le
  have hpos := h.pos_le
  unfold BufferedTokenCursor.preceding Reader.last_consumed
  rw [h.pos_eq, h.source_eq]
  dsimp only
  by_cases hstart : reader.start < reader.pos
  · have hlt : reader.pos - 1 < (gone ++ cursor.buffer).length := by omega
    rw [if_neg (by omega), if_pos hstart, h.buffered_token_eq (by omega),
      List.getElem?_eq_getElem hlt]
    have hitem := h.progress.token_at_of_lt hlt
    unfold token_at at hitem
    rw [hitem]
  · rw [if_neg hstart]
    split
    · rfl
    · have hle := h.start_le
      unfold BufferedTokenCursor.buffered_token
      rw [if_pos (by rw [h.start_eq]; omega)]

theorem discard_consumed_follows
    (h : Follows unicode features source capture cursor reader stream gone) :
    ∃ gone', Follows unicode features source capture cursor.discard_consumed
      { reader with start := max reader.start reader.pos } stream gone' := by
  have hseen := h.seen_le
  have hpos := h.pos_le
  have hle := h.start_le
  rw [List.length_append, h.gone_length] at hseen
  have hconsumed : min (cursor.pos - cursor.buffer_start) cursor.buffer.length =
      reader.pos - reader.start := by
    have := h.start_eq
    rw [h.pos_eq]
    omega
  refine ⟨gone ++ cursor.buffer.take (reader.pos - reader.start), ?_⟩
  unfold BufferedTokenCursor.discard_consumed
  rw [h.source_eq]
  dsimp only
  rw [hconsumed, max_eq_right hle]
  have hkept : gone ++ cursor.buffer.take (reader.pos - reader.start) ++
      cursor.buffer.drop (reader.pos - reader.start) = gone ++ cursor.buffer := by
    rw [List.append_assoc, List.take_append_drop]
  refine ⟨rfl, h.features_eq, ?_, ?_, ?_, h.pos_eq, le_rfl, hpos, ?_, h.trivia_eq⟩
  · dsimp only
    rw [hkept]
    exact h.progress
  · have := h.start_eq
    simp only [List.length_append, List.length_take, h.gone_length]
    omega
  · have := h.start_eq
    dsimp only
    omega
  · dsimp only
    rw [hkept]
    exact h.seen_le

end Follows

end

/-! ## The eager cursor -/

/-- The ranges start at `pos` or later, none is empty, and each ends before the next ones start. -/
def Ascending (pos : Nat) (ranges : List TriviaRange) : Prop :=
  ranges.Pairwise (fun r r' => r.span.stop ≤ r'.span.start) ∧
    ∀ r ∈ ranges, pos ≤ r.span.start ∧ r.span.start < r.span.stop

namespace Ascending

variable {pos mid : Nat} {ranges ranges' : List TriviaRange}

theorem nil (pos : Nat) : Ascending pos [] :=
  ⟨List.Pairwise.nil, fun _ hr => absurd hr List.not_mem_nil⟩

theorem append (h : Ascending pos ranges) (hend : ∀ r ∈ ranges, r.span.stop ≤ mid)
    (hle : pos ≤ mid) (h' : Ascending mid ranges') : Ascending pos (ranges ++ ranges') := by
  refine ⟨List.pairwise_append.mpr ⟨h.1, h'.1, fun r hr r' hr' => ?_⟩, fun r hr => ?_⟩
  · exact (hend r hr).trans (h'.2 r' hr').1
  · rcases List.mem_append.mp hr with hr | hr
    · exact h.2 r hr
    · exact ⟨hle.trans (h'.2 r hr).1, (h'.2 r hr).2⟩

end Ascending

theorem trivia_passed_ascending (n : Nat) {sweep : Sweep} {c : Cursor} {state : LexState}
    (htext : IsText c.rest) : Ascending c.pos (trivia_passed features n sweep c state) := by
  induction n using Nat.strong_induction_on generalizing sweep c state with
  | h n ih =>
    rw [trivia_passed.eq_def]
    dsimp only
    split
    · rename_i kind next between hrun
      obtain ⟨hmoves, hlt, -⟩ := trivia_run_ok htext hrun
      split
      · rename_i behind hcheck
        have hfirst : Ascending c.pos [⟨kind, ⟨c.pos, next.pos⟩⟩] := by
          refine ⟨List.pairwise_singleton _ _, fun r hr => ?_⟩
          obtain rfl := List.mem_singleton.mp hr
          exact ⟨le_rfl, hlt⟩
        refine hfirst.append (fun r hr => ?_) hlt.le ?_
        · obtain rfl := List.mem_singleton.mp hr
          exact le_rfl
        · cases n with
          | zero => exact .nil _
          | succ m => exact ih m (Nat.lt_succ_self m) (hmoves.isText htext)
      · exact .nil _
    · exact .nil _

/-- The trivia in front of a token ends where the token starts or earlier. -/
theorem trivia_passed_le {S : Type} {sink : TriviaSink S} (n : Nat) {sweep : Sweep}
    {c stop : Cursor} {state state' : LexState} {trivia trivia' : S} (htext : IsText c.rest)
    (h : skip_trivia_loop features sink n sweep c trivia state = .ok (stop, trivia', state')) :
    ∀ r ∈ trivia_passed features n sweep c state, r.span.stop ≤ stop.pos := by
  induction n using Nat.strong_induction_on generalizing sweep c trivia state with
  | h n ih =>
    intro r hr
    obtain ⟨hrun, -⟩ | ⟨kind, next, between, behind, hrun, hcheck, hnext⟩ :=
      skip_trivia_loop_cases h
    · rw [trivia_passed_none hrun] at hr
      cases hr
    have hmoves := (trivia_run_ok htext hrun).1
    rw [trivia_passed_some hrun hcheck] at hr
    obtain ⟨rfl, rfl, -⟩ | ⟨m, rfl, hloop⟩ := hnext
    · obtain rfl := List.mem_singleton.mp hr
      exact le_rfl
    · have hle := (skip_trivia_loop_moves m (hmoves.isText htext) hloop).pos_le
      rcases List.mem_cons.mp hr with rfl | hr
      · exact hle
      · exact ih m (Nat.lt_succ_self m) (hmoves.isText htext) hloop r hr

/-- A turn that finds a token takes a byte or more, behind the trivia it passes. -/
theorem scanner_item_moves {source : List SourceByte} {c stop : Cursor} {lex lex' : LexState}
    {token : Token} (htext : IsText c.rest)
    (h : (scanner unicode features source (c, lex)).2 = .item token (stop, lex')) :
    Moves c stop ∧ stop.rest.length < c.rest.length ∧
      ∀ r ∈ trivia_before features source c lex, r.span.stop ≤ stop.pos := by
  unfold scanner at h
  dsimp only at h
  split at h
  · rename_i hnext
    cases h
    obtain ⟨start, htrivia, ⟨hnone, -⟩ | ⟨byte, scanned, hpeek, hsome, hscanned⟩⟩ :=
      next_token_cases hnext
    · cases hnone
    have hmoves := skip_trivia_loop_moves _ htext htrivia
    obtain ⟨-, hlt, hreads⟩ :=
      scan_token_lexes (hmoves.isText htext) hpeek scanned stop hscanned
    have hall := hmoves.trans hreads.toMoves
    have hle := hmoves.pos_le
    have htotal := hall.total
    have hpassed := trivia_passed_le _ htext htrivia
    exact ⟨hall, by omega, fun r hr => (hpassed r hr).trans hlt.le⟩
  · cases h
  · cases h

/-- No trivia is noted twice. -/
theorem noted_ascending {source : List SourceByte} (n : Nat) {c : Cursor} {lex : LexState}
    (htext : IsText c.rest) :
    Ascending c.pos (noted (scanner unicode features source) n (c, lex)) := by
  induction n generalizing c lex with
  | zero => exact .nil _
  | succ n ih =>
    have hbefore : Ascending c.pos (trivia_before features source c lex) :=
      trivia_passed_ascending _ htext
    rw [noted]
    split
    · rename_i token next hstep
      obtain ⟨stop, lex'⟩ := next
      obtain ⟨hmoves, -, hle⟩ := scanner_item_moves htext hstep
      exact hbefore.append hle hmoves.pos_le (ih (hmoves.isText htext))
    · rw [List.append_nil]
      exact hbefore

/-- The eager cursor reads what the scanner makes, up to the end or the first fault. -/
theorem collect_makes {source : List SourceByte} (n : Nat) {c : Cursor} {lex : LexState}
    (trivia : List TriviaRange) (tokens : List Token) (htext : IsText c.rest)
    (hfuel : c.rest.length < n) :
    ∃ made s, Makes (scanner unicode features source) (c, lex) made s ∧
      ((scanner unicode features source s).2 = .finished ∧
          collect unicode features Recorded source n c trivia lex tokens = .ok (tokens ++ made,
            trivia ++ noted (scanner unicode features source) (made.length + 1) (c, lex)) ∨
        ∃ fault, (scanner unicode features source s).2 = .fault fault ∧
          collect unicode features Recorded source n c trivia lex tokens = .error fault) := by
  induction n generalizing c lex trivia tokens with
  | zero => exact absurd hfuel (Nat.not_lt_zero _)
  | succ n ih =>
    have hsnd := next_token_into_snd unicode features Recorded source c trivia lex
    have hfst := next_token_into_fst unicode features Recorded source c trivia lex
    unfold next_token_into at hsnd hfst
    simp only [give_recorded] at hsnd
    rw [collect]
    cases hnext : next_token unicode features Recorded source c trivia lex with
    | error fault =>
      rw [hnext] at hfst
      obtain ⟨token, stop, lex', -, hok⟩ | ⟨stop, lex', -, hok⟩ | ⟨fault', hstep, herror⟩ := hfst
      · cases hok
      · cases hok
      · cases herror
        exact ⟨[], (c, lex), .nil, .inr ⟨fault, hstep, rfl⟩⟩
    | ok scanned =>
      obtain ⟨token, stop, trivia', lex'⟩ := scanned
      rw [hnext] at hfst hsnd
      dsimp only at hfst hsnd
      obtain ⟨token', stop', lex'', hstep, hok⟩ | ⟨stop', lex'', hstep, hok⟩ |
        ⟨fault', -, herror⟩ := hfst
      · cases hok
        obtain ⟨hmoves, hlt, -⟩ := scanner_item_moves htext hstep
        obtain ⟨made, s, hmakes, hend⟩ := @ih stop lex' trivia' (tokens ++ [token'])
          (hmoves.isText htext) (by omega)
        refine ⟨token' :: made, s, .cons hstep hmakes, ?_⟩
        obtain ⟨hfinished, hread⟩ | ⟨fault, hfault, hread⟩ := hend
        · refine .inl ⟨hfinished, ?_⟩
          rw [List.length_cons, noted_item hstep, ← List.append_assoc, ← hsnd]
          refine hread.trans ?_
          rw [List.append_assoc, List.singleton_append]
        · exact .inr ⟨fault, hfault, hread⟩
      · cases hok
        refine ⟨[], (c, lex), .nil, .inl ⟨hstep, ?_⟩⟩
        rw [List.length_nil, noted_ends (ends_finished hstep), ← hsnd, List.append_nil]
        rfl
      · cases herror

/-- An eager list and the places of the source. -/
theorem tokenize_with_trivia_token_at (unicode : Unicode) (features : FeatureSet)
    (source : List Char) (hsize : (encode source).length ≤ 2 ^ 32 - 1) :
    (∀ tokens ranges, tokenize_with_trivia unicode source features = .ok (tokens, ranges) →
        (∀ n, token_at unicode features (encode source) n = .ok tokens[n]?) ∧
        ∀ n, trivia_upto unicode features (encode source) n <+: ranges ∧
          (tokens.length < n → trivia_upto unicode features (encode source) n = ranges)) ∧
      ∀ fault, tokenize_with_trivia unicode source features = .error fault →
        ∃ read : List Token, ∀ n, token_at unicode features (encode source) n =
          if h : n < read.length then .ok (some read[n]) else .error fault := by
  obtain ⟨made, s, hmakes, hend⟩ := @collect_makes unicode features (encode source)
    ((encode source).length + 1) (.new (encode source)) ⟨none⟩ [] [] (isText_encode source)
    (Nat.lt_succ_self _)
  unfold tokenize_with_trivia collect_all
  rw [if_neg (Nat.not_lt.mpr hsize)]
  obtain ⟨hfinished, hread⟩ | ⟨fault, hfault, hread⟩ := hend
  · rw [hread]
    refine ⟨fun tokens ranges hok => ?_, fun fault herror => by cases herror⟩
    cases hok
    rw [List.nil_append, List.nil_append]
    refine ⟨hmakes.item_at_of_finished hfinished, fun n => ?_⟩
    have hall {n : Nat} (hn : made.length < n) :
        trivia_upto unicode features (encode source) n =
          noted (scanner unicode features (encode source)) (made.length + 1)
            (first_state (encode source)) :=
      Progress.noted_end hmakes (ends_finished hfinished) hn (Nat.lt_succ_self _)
    refine ⟨?_, hall⟩
    rcases Nat.lt_or_ge made.length n with hn | hn
    · exact (hall hn).symm ▸ List.prefix_rfl
    · exact noted_prefix (Nat.le_succ_of_le hn) _
  · rw [hread]
    refine ⟨fun _ _ hok => (by cases hok), fun fault' herror => ⟨made, fun n => ?_⟩⟩
    cases herror
    split
    · rename_i hn
      exact hmakes.item_at_of_lt hn
    · rename_i hn
      exact hmakes.item_at_of_fault hfault (Nat.le_of_not_lt hn)

end squonk.tokenizer.scan
