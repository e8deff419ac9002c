import Squonk.Ast.Literal.StringText
import Squonk.Interner.Basic
import Squonk.Tokenizer.Trivia

/-!
# Names in quotes

What the parser takes a name to be whose token is a quoted identifier or a string: its text without
the delimiters, each delimiter inside of it once, and the style of its quotes.
-/

open squonk.ast.literal squonk.dialect squonk.document squonk.tokenizer

namespace squonk.parser.name

inductive QuoteStyle
  | None | Single | Double | UnicodeDouble | Backtick | Bracket
  deriving DecidableEq

structure Ident where
  sym : List Char
  quote : QuoteStyle
  span : Span
  deriving DecidableEq

/-! ## Delimiters -/

/-- The text with one delimiter for two next to each other, from the left on. -/
def undouble (delim : Char) : List Char → List Char
  | [] => []
  | [c] => [c]
  | c :: d :: rest =>
    if c == delim && d == delim then delim :: undouble delim rest
    else c :: undouble delim (d :: rest)

/-- The text between the first character and the last. -/
def inner (raw : List Char) : List Char := (raw.drop 1).dropLast

/-- The style and the body of a quoted identifier; no other character opens one. -/
def materialize_quoted_ident (raw : List Char) : Option (QuoteStyle × List Char) :=
  match raw.head? with
  | some '"' => some (.Double, undouble '"' (inner raw))
  | some '`' => some (.Backtick, undouble '`' (inner raw))
  | some '[' => some (.Bracket, undouble ']' (inner raw))
  | _ => none

/-! ## Unicode identifiers -/

def is_unicode_ident (text : List Char) : Bool :=
  match text with
  | marker :: '&' :: '"' :: _ => marker == 'U' || marker == 'u'
  | _ => false

def materialize_unicode_ident (text : List Char) : Option (List Char) := do
  let (body, escape) ← unicode_lexeme_body text '"'
  if !body.contains escape && !body.contains '"' then return body
  else
    match scan_unicode_escape_string escape '"' body.length body [] with
    | .ok value => return value
    | .error _ => none

def is_uescape (token : scan.Token) : Bool :=
  match token.kind with
  | .Keyword slot => interner.lookup_keyword "uescape" == some slot
  | _ => false

section
variable (source : List SourceByte)

/-- The span of a constant with the `UESCAPE` clause behind it, where there is one. -/
def consume_optional_uescape (span : Span) (rest : List scan.Token) : Option Span :=
  match rest with
  | [] => some span
  | uescape :: rest =>
    if is_uescape uescape then
      match rest with
      | [] => none
      | escape :: _ => do
        if escape.kind != .String then none
        let argument ← get source escape.span
        if (parse_uescape_argument argument).isNone then none
        return ⟨span.start, escape.span.stop⟩
    else some span

/-! ## Names -/

/-- The identifier that a quoted token is, with the tokens behind it. -/
def parse_quoted_ident (token : scan.Token) (rest : List scan.Token) : Option Ident := do
  if token.kind != .QuotedIdent then none
  let text ← get source token.span
  if is_unicode_ident text then
    let span ← consume_optional_uescape source token.span rest
    let value ← materialize_unicode_ident (← get source span)
    return ⟨value, .UnicodeDouble, span⟩
  else
    let (quote, text) ← materialize_quoted_ident text
    return ⟨text, quote, token.span⟩

/-- The identifier that a plain string is; a string behind a marker is none. -/
def parse_string_alias_ident (token : scan.Token) : Option Ident := do
  if token.kind != .String then none
  let raw ← get source token.span
  match raw.head? with
  | some '\'' => return ⟨undouble single_quote (inner raw), .Single, token.span⟩
  | some '"' => return ⟨undouble '"' (inner raw), .Double, token.span⟩
  | _ => none

/-- The identifier that an escape string or a dollar-quoted one is: its value. -/
def parse_name_sconst_ident (literal : Literal) : Option Ident :=
  match literal.as_str source with
  | .ok value => some ⟨value, .Single, literal.span⟩
  | .error _ => none

end

/-! ## Text -/

/-- The text with two delimiters for each one. -/
def double (close : Char) (text : List Char) : List Char :=
  text.flatMap fun c => if c == close then [c, c] else [c]

/-- A name as it is rendered with the source at hand, which holds the text of a Unicode
identifier. -/
def ident_text (source : List SourceByte) (ident : Ident) : List Char :=
  let quoted (opening close : Char) : List Char := opening :: (double close ident.sym ++ [close])
  match ident.quote with
  | .None => ident.sym
  | .UnicodeDouble => (get source ident.span).getD (quoted '"' '"')
  | .Single => quoted single_quote single_quote
  | .Double => quoted '"' '"'
  | .Backtick => quoted '`' '`'
  | .Bracket => quoted '[' ']'

example : ident_text [] ⟨"a\"b".toList, .Double, ⟨0, 0⟩⟩ = "\"a\"\"b\"".toList := by decide

theorem double_cons_self (delim : Char) (text : List Char) :
    double delim (delim :: text) = delim :: delim :: double delim text := by
  simp [double]

theorem double_cons_of_ne {delim c : Char} (hc : c ≠ delim) (text : List Char) :
    double delim (c :: text) = c :: double delim text := by
  simp [double, hc]

theorem undouble_cons_of_ne {delim c : Char} (hc : c ≠ delim) (text : List Char) :
    undouble delim (c :: text) = c :: undouble delim text := by
  cases text with
  | nil => rfl
  | cons d text =>
    have hne : (c == delim) = false := beq_eq_false_iff_ne.mpr hc
    rw [undouble, hne, Bool.false_and]
    rfl

theorem undouble_double (delim : Char) (text : List Char) :
    undouble delim (double delim text) = text := by
  induction text with
  | nil => rfl
  | cons c text ih =>
    by_cases hc : c = delim
    · rw [hc, double_cons_self, undouble, beq_self_eq_true, Bool.and_self, if_pos rfl, ih]
    · rw [double_cons_of_ne hc, undouble_cons_of_ne hc, ih]

theorem mem_double {delim c : Char} {text : List Char} :
    c ∈ double delim text ↔ c ∈ text := by
  induction text with
  | nil => rfl
  | cons d text ih =>
    by_cases hd : d = delim
    · rw [hd, double_cons_self, List.mem_cons, List.mem_cons, List.mem_cons, ih]
      tauto
    · rw [double_cons_of_ne hd, List.mem_cons, List.mem_cons, ih]

theorem mem_of_mem_undouble {delim c : Char} {text : List Char} (h : c ∈ undouble delim text) :
    c ∈ text := by
  fun_induction undouble delim text with
  | case1 => exact h
  | case2 d => exact h
  | case3 d e text hdoubled ih =>
    simp only [Bool.and_eq_true, beq_iff_eq] at hdoubled
    obtain rfl | h := List.mem_cons.mp h
    · rw [hdoubled.1]
      exact .head _
    · exact .tail _ (.tail _ (ih h))
  | case4 d e text hdoubled ih =>
    obtain rfl | h := List.mem_cons.mp h
    · exact .head _
    · exact .tail _ (ih h)

theorem undouble_eq_nil {delim : Char} {text : List Char} (h : undouble delim text = []) :
    text = [] := by
  cases text with
  | nil => rfl
  | cons c text =>
    cases text with
    | nil => cases h
    | cons d text =>
      rw [undouble] at h
      split at h
      all_goals cases h

end squonk.parser.name
