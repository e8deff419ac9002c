import Squonk.Tokenizer.Trivia

/-!
# The streaming cursor

A cursor over tokens that are scanned only when they are asked for, and kept until the parser is
done with the statement they are in.
-/

open squonk.dialect squonk.document

namespace squonk.tokenizer.scan

section
variable (unicode : Unicode) (features : FeatureSet)

/-- The ranges the loop over trivia gives to its sink, whether or not it ends in an error. -/
def trivia_passed : Nat → Sweep → Cursor → LexState → List TriviaRange
  | n, sweep, cursor, state =>
    match trivia_run features cursor state with
    | .ok (some (kind, stop, state)) =>
      match check_run features kind cursor stop sweep with
      | .ok sweep =>
        ⟨kind, ⟨cursor.pos, stop.pos⟩⟩ ::
          match n with
          | 0 => []
          | n + 1 => trivia_passed n sweep stop state
      | .error _ => []
    | _ => []

/-- The ranges in front of the next token, or of the fault there. -/
def trivia_before (source : List SourceByte) (cursor : Cursor) (state : LexState) :
    List TriviaRange :=
  let content_before := cursor.pos != 0 &&
    source[cursor.pos - 1]?.map (·.byte) != some (ascii ';')
  trivia_passed features cursor.rest.length ⟨content_before, false, none⟩ cursor state

/-- The next token, with what its sink holds when the scanner returns, by an error too. -/
def next_token_into {S : Type} (sink : TriviaSink S) (source : List SourceByte) (cursor : Cursor)
    (trivia : S) (lex : LexState) : Scan (Option Token × Cursor × LexState) × S :=
  match next_token unicode features sink source cursor trivia lex with
  | .ok (token, stop, trivia, lex) => (.ok (token, stop, lex), trivia)
  | .error fault => (.error fault, sink.give trivia (trivia_before features source cursor lex))

end

/-- The scanner behind a streaming cursor. Its first fault is kept; a panic is kept like an
    error, since no call returns behind one. -/
structure Stream where
  src : List SourceByte
  cursor : Cursor
  reached_eof : Bool
  lex_error : Option Fault
  lex : LexState
  deriving DecidableEq

inductive BufferedTokenSource
  | Slice (tokens : List Token)
  | Stream (stream : Stream)

/-- Tokens in front of `buffer_start` have been let go of; positions count from the first token
    of the source. -/
structure BufferedTokenCursor where
  source : BufferedTokenSource
  features : Option FeatureSet
  buffer : List Token
  buffer_start : Nat
  pos : Nat
  trivia : Option (List TriviaRange)

variable (unicode : Unicode)

/-- Scan up to `n` tokens into the buffer. -/
def scan_turns {S : Type} (features : FeatureSet) (sink : TriviaSink S) :
    Nat → Stream → List Token → S → Scan Unit × Stream × List Token × S
  | 0, stream, buffer, trivia => (.ok (), stream, buffer, trivia)
  | n + 1, stream, buffer, trivia =>
    if stream.reached_eof then (.ok (), stream, buffer, trivia)
    else
      match next_token_into unicode features sink stream.src stream.cursor trivia stream.lex with
      | (.ok (some token, cursor, lex), trivia) =>
        scan_turns features sink n { stream with cursor := cursor, lex := lex } (buffer ++ [token])
          trivia
      | (.ok (none, cursor, lex), trivia) =>
        (.ok (), { stream with cursor := cursor, lex := lex, reached_eof := true }, buffer, trivia)
      | (.error fault, trivia) =>
        (.error fault, { stream with lex_error := some fault }, buffer, trivia)

namespace BufferedTokenCursor

def from_tokens (tokens : List Token) : BufferedTokenCursor :=
  ⟨.Slice tokens, none, [], 0, 0, none⟩

def streaming_inner (src : List Char) (features : FeatureSet)
    (trivia : Option (List TriviaRange)) : Scan BufferedTokenCursor :=
  let bytes := encode src
  if bytes.length > 2 ^ 32 - 1 then lex_error .SourceTooLong 0 0
  else
    .ok ⟨.Stream ⟨bytes, .new bytes, false, none, ⟨none⟩⟩, some features, [], 0, 0, trivia⟩

def streaming (src : List Char) (features : FeatureSet) : Scan BufferedTokenCursor :=
  streaming_inner src features none

def streaming_with_trivia (src : List Char) (features : FeatureSet) : Scan BufferedTokenCursor :=
  streaming_inner src features (some [])

def buffered_token (self : BufferedTokenCursor) (index : Nat) : Option Token :=
  if index < self.buffer_start then none else self.buffer[index - self.buffer_start]?

/-- Fill the buffer up to `target`, or as far as the source goes. -/
def scan_loop {S : Type} (self : BufferedTokenCursor) (target : Nat) (sink : TriviaSink S)
    (trivia : S) : Scan Unit × BufferedTokenCursor × S :=
  match self.source with
  | .Slice _ => (.ok (), self, trivia)
  | .Stream stream =>
    match self.features with
    | none => (.error .panic, self, trivia)
    | some features =>
      match stream.lex_error with
      | some fault => (.error fault, self, trivia)
      | none =>
        let (result, stream, buffer, trivia) := scan_turns unicode features sink
          (target + 1 - (self.buffer_start + self.buffer.length)) stream self.buffer trivia
        (result, { self with source := .Stream stream, buffer := buffer }, trivia)

def fill_through (self : BufferedTokenCursor) (target : Nat) : Scan Unit × BufferedTokenCursor :=
  match self.trivia with
  | some ranges =>
    let (result, self, ranges) := self.scan_loop unicode target Recorded ranges
    (result, { self with trivia := some ranges })
  | none =>
    let (result, self, _) := self.scan_loop unicode target NoTrivia ()
    (result, self)

def peek_nth (self : BufferedTokenCursor) (n : Nat) :
    Scan (Option Token) × BufferedTokenCursor :=
  let target := self.pos + n
  match self.source with
  | .Slice tokens => (.ok tokens[target]?, self)
  | .Stream _ =>
    match self.buffered_token target with
    | some token => (.ok (some token), self)
    | none =>
      match self.fill_through unicode target with
      | (.ok (), self) => (.ok (self.buffered_token target), self)
      | (.error fault, self) => (.error fault, self)

def peek (self : BufferedTokenCursor) : Scan (Option Token) × BufferedTokenCursor :=
  self.peek_nth unicode 0

def advance (self : BufferedTokenCursor) : Scan (Option Token) × BufferedTokenCursor :=
  match self.peek unicode with
  | (.ok (some token), self) => (.ok (some token), { self with pos := self.pos + 1 })
  | (token, self) => (token, self)

def seek (self : BufferedTokenCursor) (pos : Nat) : BufferedTokenCursor := { self with pos := pos }

/-- The token in front of the cursor, if it is still kept. -/
def preceding (self : BufferedTokenCursor) : Option Token :=
  if self.pos = 0 then none
  else
    match self.source with
    | .Slice tokens => tokens[self.pos - 1]?
    | .Stream _ => self.buffered_token (self.pos - 1)

def discard_consumed (self : BufferedTokenCursor) : BufferedTokenCursor :=
  match self.source with
  | .Slice _ => self
  | .Stream _ =>
    let consumed := min (self.pos - self.buffer_start) self.buffer.length
    { self with
      buffer := self.buffer.drop consumed, buffer_start := self.buffer_start + consumed }

end BufferedTokenCursor

end squonk.tokenizer.scan
