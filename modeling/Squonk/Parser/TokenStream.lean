import Squonk.Dialect.Presets
import Squonk.Tokenizer.Streaming

/-!
# The token stream of the parser

The parser reads its tokens through a streaming cursor and keeps the last token it looked at. What
it reads is what stands in the eager list, whatever it asks for and however it goes back.
-/

open squonk.dialect squonk.document squonk.tokenizer squonk.tokenizer.scan on_demand

namespace squonk.parser.token_stream

/-- The cursor, and the last token looked at, with the position it stands at. -/
structure Parser where
  cursor : BufferedTokenCursor
  peeked : Option (Nat × Scan (Option scan.Token))

namespace Parser

variable (unicode : Unicode)

def new (cursor : BufferedTokenCursor) : Parser := ⟨cursor, none⟩

def peek (self : Parser) : Scan (Option scan.Token) × Parser :=
  let pos := self.cursor.pos
  match self.peeked.filter (·.1 == pos) with
  | some (_, cached) => (cached, self)
  | none =>
    let (result, cursor) := self.cursor.peek unicode
    (result, ⟨cursor, some (pos, result)⟩)

def peek_nth (self : Parser) (n : Nat) : Scan (Option scan.Token) × Parser :=
  if n = 0 then self.peek unicode
  else
    let (token, cursor) := self.cursor.peek_nth unicode n
    (token, { self with cursor := cursor })

def advance (self : Parser) : Scan (Option scan.Token) × Parser :=
  let (token, cursor) := self.cursor.advance unicode
  (token, { self with cursor := cursor })

/-- The parser at a position a checkpoint was taken at. -/
def rewind (self : Parser) (checkpoint : Nat) : Parser :=
  { self with cursor := self.cursor.seek checkpoint }

def discard_consumed_tokens (self : Parser) : Parser :=
  { self with cursor := self.cursor.discard_consumed }

def perform (self : Parser) : Op → Answer scan.Token Fault × Parser
  | .peek_nth n =>
    let (token, next) := self.peek_nth unicode n
    (.read token, next)
  | .advance =>
    let (token, next) := self.advance unicode
    (.read token, next)
  | .seek pos => (.done, self.rewind pos)
  | .preceding => (.retained self.cursor.preceding, self)
  | .discard_consumed => (.done, self.discard_consumed_tokens)

/-- The answers to a run of questions, and the parser behind them. -/
def run : Parser → List Op → List (Answer scan.Token Fault) × Parser
  | self, [] => ([], self)
  | self, op :: ops =>
    let (answer, next) := self.perform unicode op
    let (answers, last) := next.run ops
    (answer :: answers, last)

end Parser

variable {unicode : Unicode} {features : FeatureSet} {source : List SourceByte} {capture : Bool}

/-- The parser stands where the reader does, and what it keeps is what stands at its place. -/
structure Reflects (unicode : Unicode) (features : FeatureSet) (source : List SourceByte)
    (capture : Bool) (parser : Parser) (reader : Reader) : Prop where
  window : ∃ stream gone, Follows unicode features source capture parser.cursor reader stream gone
  memo : ∀ pos item, parser.peeked = some (pos, item) →
    item = token_at unicode features source pos ∧ pos < reader.asked

namespace Reflects

variable {parser : Parser} {reader : Reader}

/-- More questions asked leave what was kept as it is. -/
theorem memo_ask (h : Reflects unicode features source capture parser reader) (place : Nat) :
    ∀ pos item, parser.peeked = some (pos, item) →
      item = token_at unicode features source pos ∧ pos < (reader.ask place).asked := by
  intro pos item hpeeked
  obtain ⟨hitem, hlt⟩ := h.memo pos item hpeeked
  exact ⟨hitem, hlt.trans_le (Nat.le_max_left _ _)⟩

theorem peek (h : Reflects unicode features source capture parser reader) :
    ∃ parser', parser.peek unicode = (token_at unicode features source reader.pos, parser') ∧
      Reflects unicode features source capture parser' (reader.ask reader.pos) := by
  obtain ⟨stream, gone, hwindow⟩ := h.window
  unfold Parser.peek
  dsimp only
  cases hcached : parser.peeked.filter (·.1 == parser.cursor.pos) with
  | some cached =>
    obtain ⟨pos, item⟩ := cached
    obtain ⟨hpeeked, hpos⟩ := Option.filter_eq_some_iff.mp hcached
    obtain rfl : pos = parser.cursor.pos := by simpa using hpos
    obtain ⟨hitem, hlt⟩ := h.memo _ _ hpeeked
    rw [hwindow.pos_eq] at hitem hlt
    refine ⟨parser, by rw [hitem], ?_⟩
    have hask : reader.ask reader.pos = reader := by
      unfold Reader.ask
      rw [max_eq_left hlt]
    rw [hask]
    exact h
  | none =>
    obtain ⟨cursor', stream', hpeek, hfollows⟩ := hwindow.peek_nth_follows 0
    rw [Nat.add_zero] at hpeek hfollows
    unfold BufferedTokenCursor.peek
    rw [hpeek]
    refine ⟨_, rfl, ⟨stream', gone, hfollows⟩, fun pos item hpeeked => ?_⟩
    cases hpeeked
    rw [hwindow.pos_eq]
    exact ⟨rfl, Nat.le_max_right _ _⟩

theorem peek_nth (h : Reflects unicode features source capture parser reader) (n : Nat) :
    ∃ parser', parser.peek_nth unicode n =
        (token_at unicode features source (reader.pos + n), parser') ∧
      Reflects unicode features source capture parser' (reader.ask (reader.pos + n)) := by
  unfold Parser.peek_nth
  split
  · rename_i hn
    subst hn
    exact h.peek
  · obtain ⟨stream, gone, hwindow⟩ := h.window
    obtain ⟨cursor', stream', hpeek, hfollows⟩ := hwindow.peek_nth_follows n
    rw [hpeek]
    exact ⟨_, rfl, ⟨stream', gone, hfollows⟩, h.memo_ask _⟩

theorem asked_le_advance (reader : Reader) :
    reader.asked ≤ (reader.perform (scanner unicode features source)
      (first_state source) .advance).2.asked := by
  unfold Reader.perform
  dsimp only
  split
  · exact Nat.le_max_left _ _
  · exact Nat.le_max_left _ _

theorem advance (h : Reflects unicode features source capture parser reader) :
    ∃ parser', parser.advance unicode =
        (token_at unicode features source reader.pos, parser') ∧
      Reflects unicode features source capture parser'
        (reader.perform (scanner unicode features source) (first_state source) .advance).2 := by
  obtain ⟨stream, gone, hwindow⟩ := h.window
  obtain ⟨cursor', stream', hadvance, hfollows⟩ := hwindow.advance_follows
  unfold Parser.advance
  rw [hadvance]
  refine ⟨_, rfl, ⟨stream', gone, hfollows⟩, fun pos item hpeeked => ?_⟩
  obtain ⟨hitem, hlt⟩ := h.memo pos item hpeeked
  exact ⟨hitem, hlt.trans_le (asked_le_advance reader)⟩

/-- One question: the parser answers what the reader does. -/
theorem perform (h : Reflects unicode features source capture parser reader) {op : Op}
    (hallowed : reader.Allows op) :
    (parser.perform unicode op).1 =
        (reader.perform (scanner unicode features source) (first_state source) op).1 ∧
      Reflects unicode features source capture (parser.perform unicode op).2
        (reader.perform (scanner unicode features source) (first_state source) op).2 := by
  obtain ⟨stream, gone, hwindow⟩ := h.window
  cases op with
  | peek_nth n =>
    obtain ⟨parser', hpeek, hreflects⟩ := h.peek_nth n
    simp only [Parser.perform, hpeek]
    exact ⟨rfl, hreflects⟩
  | advance =>
    obtain ⟨parser', hadvance, hreflects⟩ := h.advance
    simp only [Parser.perform, hadvance]
    exact ⟨rfl, hreflects⟩
  | seek pos => exact ⟨rfl, ⟨stream, gone, hwindow.seek_follows hallowed⟩, h.memo⟩
  | preceding => exact ⟨congrArg Answer.retained hwindow.preceding_eq, h⟩
  | discard_consumed =>
    obtain ⟨gone', hfollows⟩ := hwindow.discard_consumed_follows
    exact ⟨rfl, ⟨stream, gone', hfollows⟩, h.memo⟩

/-- A run of questions. -/
theorem run (ops : List Op) (h : Reflects unicode features source capture parser reader)
    (hallowed : reader.AllowsAll (scanner unicode features source) (first_state source) ops) :
    (parser.run unicode ops).1 =
        (reader.run (scanner unicode features source) (first_state source) ops).1 ∧
      Reflects unicode features source capture (parser.run unicode ops).2
        (reader.run (scanner unicode features source) (first_state source) ops).2 := by
  induction ops generalizing parser reader with
  | nil => exact ⟨rfl, h⟩
  | cons op ops ih =>
    obtain ⟨hanswer, hnext⟩ := h.perform hallowed.1
    obtain ⟨hanswers, hlast⟩ := ih hnext hallowed.2
    exact ⟨congrArg₂ List.cons hanswer hanswers, hlast⟩

end Reflects

theorem reflects_new (src : List Char) {cursor : BufferedTokenCursor}
    (h : BufferedTokenCursor.streaming_inner src features (bif capture then some [] else none) =
      .ok cursor) :
    (encode src).length ≤ 2 ^ 32 - 1 ∧
      Reflects unicode features (encode src) capture (.new cursor) .new := by
  unfold BufferedTokenCursor.streaming_inner at h
  dsimp only at h
  split at h
  · cases h
  · rename_i hsize
    cases h
    refine ⟨Nat.le_of_not_lt hsize, ⟨_, [], rfl, rfl, ?_, rfl, rfl, rfl, le_rfl, le_rfl,
      Nat.zero_le _, rfl⟩, fun _ _ hpeeked => by cases hpeeked⟩
    exact .more rfl rfl rfl rfl .nil

/-- Whatever a parser asks its streaming cursor for, it is told what stands at the place in the
    eager list, the token consumed last as long as it is kept, and the trivia captured so far is
    what the eager list begins with, each range once. -/
theorem run_eq_eager (unicode : Unicode) (features : FeatureSet) (src : List Char)
    (capture : Bool) (cursor : BufferedTokenCursor) (ops : List Op)
    (hnew : BufferedTokenCursor.streaming_inner src features
      (bif capture then some [] else none) = .ok cursor)
    (hallowed : Reader.new.AllowsAll (scanner unicode features (encode src))
      (first_state (encode src)) ops) :
    let eager := tokenize_with_trivia unicode src features
    let reader := Reader.new.run (scanner unicode features (encode src))
      (first_state (encode src)) ops
    let parser := (Parser.new cursor).run unicode ops
    let captured := trivia_upto unicode features (encode src) reader.2.asked
    parser.1 = reader.1 ∧
      parser.2.cursor.trivia = (bif capture then some captured else none) ∧
      Ascending 0 captured ∧
      (∀ tokens ranges, eager = .ok (tokens, ranges) →
        (∀ n, token_at unicode features (encode src) n = .ok tokens[n]?) ∧
        captured <+: ranges ∧ (tokens.length < reader.2.asked → captured = ranges)) ∧
      ∀ fault, eager = .error fault → ∃ read : List scan.Token, ∀ n,
        token_at unicode features (encode src) n =
          if h : n < read.length then .ok (some read[n]) else .error fault := by
  obtain ⟨hsize, hfirst⟩ := @reflects_new unicode _ _ src _ hnew
  obtain ⟨hanswers, hlast⟩ := hfirst.run ops hallowed
  obtain ⟨hok, herror⟩ := tokenize_with_trivia_token_at unicode features src hsize
  obtain ⟨stream, gone, hwindow⟩ := hlast.window
  refine ⟨hanswers, hwindow.trivia_eq, noted_ascending _ (isText_encode src),
    fun tokens ranges heager => ?_, herror⟩
  obtain ⟨htokens, hranges⟩ := hok tokens ranges heager
  exact ⟨htokens, hranges _⟩

/-- Two tokens read, and the first one again. -/
theorem run_eq_eager_again :
    let source := encode "1 2".toList
    let cursor : BufferedTokenCursor :=
      ⟨.Stream ⟨source, .new source, false, none, ⟨none⟩⟩, some .ANSI, [], 0, 0, some []⟩
    let ops : List Op := [.advance, .peek_nth 0, .seek 0, .advance, .preceding]
    BufferedTokenCursor.streaming_inner "1 2".toList .ANSI (some []) = .ok cursor ∧
      ((Parser.new cursor).run asciiLetters ops).1 =
        (Reader.new.run (scanner asciiLetters .ANSI source) (first_state source) ops).1 ∧
      ((Parser.new cursor).run asciiLetters ops).1 =
        [.read (.ok (some ⟨.Number, ⟨0, 1⟩⟩)), .read (.ok (some ⟨.Number, ⟨2, 3⟩⟩)), .done,
          .read (.ok (some ⟨.Number, ⟨0, 1⟩⟩)), .retained (some ⟨.Number, ⟨0, 1⟩⟩)] := by
  intro source cursor ops
  have hnew : BufferedTokenCursor.streaming_inner "1 2".toList .ANSI (some []) = .ok cursor := by
    have hsize : ¬ source.length > 2 ^ 32 - 1 := by decide +kernel
    unfold BufferedTokenCursor.streaming_inner
    exact if_neg hsize
  refine ⟨hnew, (run_eq_eager asciiLetters .ANSI "1 2".toList true cursor ops hnew
    ⟨trivial, trivial, ⟨by decide +kernel, Nat.zero_le _⟩, trivial, trivial, trivial⟩).1, ?_⟩
  decide +kernel

/-- A token that has been let go of is no longer in front of the cursor. -/
theorem preceding_discarded :
    (BufferedTokenCursor.streaming_inner "1".toList .ANSI none).map (fun cursor =>
        ((Parser.new cursor).run asciiLetters [.advance, .discard_consumed, .preceding]).1) =
      .ok [.read (.ok (some ⟨.Number, ⟨0, 1⟩⟩)), .done, .retained none] := by
  decide +kernel

end squonk.parser.token_stream
