import Squonk.Parser.Clause.Written
import Squonk.Parser.Expr.Faithful

/-!
# Dotted names

A dot is part of a name where a word stands behind it, whatever the word.
-/

open squonk.ast squonk.tokenizer squonk.dialect listing listing.Reader

namespace squonk.parser.clause

abbrev ObjectName := List Name

section
variable (features : FeatureSet) (reserved_as_label : List String)

def parse_ident : ParseResult Ident := token (expr.column_name features) "an identifier"

/-- The name that a part behind a dot stands for. -/
def as_label (t : Token) : Option Ident :=
  if reserved_as_label.any fun word => token_is_contextual_keyword word t then none else label t

/-- A part of a dotted name behind a dot. -/
def dot_turn (part : Token → Option Name) (follows : Token → Bool) (error : String) :
    ParseResult (Option Name) := do
  if ← look fun ts => ts.head? == some (.punctuation .Dot) && ts.tail.head?.any follows then
    advance
    return some (← token part error)
  else
    return none

/-- `head` says what a name starts with, and `part` what stands behind a dot. -/
def parse_dotted (head part : Token → Option Name) (follows : Token → Bool) (error : String) :
    ParseResult ObjectName := do
  let first ← token head "an identifier"
  return first :: (← many (dot_turn part follows error))

def column_part (t : Token) : Option Name := (expr.column_name features t).map Name.ident

def label_part (t : Token) : Option Name := (as_label reserved_as_label t).map Name.ident

def parse_object_name : ParseResult ObjectName :=
  parse_dotted (column_part features) (label_part reserved_as_label) expr.token_can_be_label
    "an alias"

end

def object_name_tokens : ObjectName → List Token
  | [] => []
  | head :: parts => [head.token] ++ parts.flatMap fun part => [.punctuation .Dot, part.token]

section
variable {features : FeatureSet} {reserved_as_label : List String} {head part : Token → Option Name}
  {follows : Token → Bool} {error : String} {ts rest : List Token}

theorem dot_turn_none (h : ts.head? ≠ some (.punctuation .Dot)) :
    dot_turn part follows error ts = .ok (none, ts) := by
  have hlook : (ts.head? == some (.punctuation .Dot) && ts.tail.head?.any follows) = false := by
    rw [beq_false_of_ne h]
    rfl
  rw [dot_turn, bind_apply, look_apply, bind_ok, hlook]
  rfl

theorem dot_turn_eq_some {name : Name} :
    dot_turn part follows error ts = .ok (some name, rest) ↔
      ∃ t, ts = .punctuation .Dot :: t :: rest ∧ follows t = true ∧ part t = some name := by
  rw [dot_turn, bind_apply, look_apply, bind_ok]
  constructor
  · intro h
    split at h
    · rename_i hlook
      obtain ⟨hdot, hfollows⟩ := Bool.and_eq_true_iff.mp hlook
      rw [bind_apply, advance_apply, bind_ok, bind_apply, token_apply] at h
      obtain ⟨tail, rfl⟩ := List.head?_eq_some_iff.mp (beq_iff_eq.mp hdot)
      cases tail with
      | nil => cases hfollows
      | cons t tail =>
        rw [List.tail_cons, List.head?_cons, Option.bind_some] at h
        cases hpart : part t with
        | none =>
          rw [hpart] at h
          cases h
        | some found =>
          rw [hpart] at h
          cases h
          exact ⟨t, rfl, hfollows, hpart⟩
    · cases h
  · rintro ⟨t, rfl, hfollows, hpart⟩
    have hlook : ((Token.punctuation .Dot :: t :: rest).head? == some (.punctuation .Dot) &&
        (Token.punctuation .Dot :: t :: rest).tail.head?.any follows) = true :=
      Bool.and_eq_true_iff.mpr ⟨beq_self_eq_true _, hfollows⟩
    rw [if_pos hlook, bind_apply, advance_apply, bind_ok, bind_apply, token_apply, List.tail_cons,
      List.head?_cons, Option.bind_some, hpart]
    rfl

theorem dot_turn_shrinks : Shrinks (dot_turn part follows error) := by
  intro ts name rest h
  obtain ⟨t, rfl, -, -⟩ := dot_turn_eq_some.mp h
  rw [List.length_cons, List.length_cons]
  omega

theorem dot_turn_eq_none (h : dot_turn part follows error ts = .ok (none, rest)) : ts = rest := by
  rw [dot_turn, bind_apply, look_apply, bind_ok] at h
  split at h
  · obtain ⟨⟨_, _⟩, _, heq⟩ := bind_eq_ok.mp h
    cases heq
  · cases h
    rfl

/-- The parts behind the first are taken as they are written, in front of anything but a dot. -/
theorem dotted_lists (hpart : ∀ t name, part t = some name → t = name.token) {parts : List Name}
    (h : Lists (dot_turn part follows error) ts parts rest) :
    ts = (parts.flatMap fun part => [.punctuation .Dot, part.token]) ++ rest ∧
      ∀ rest' : List Token, rest'.head? ≠ some (.punctuation .Dot) →
        Lists (dot_turn part follows error)
          ((parts.flatMap fun part => [.punctuation .Dot, part.token]) ++ rest') parts rest' := by
  induction h with
  | stop hstop => exact ⟨dot_turn_eq_none hstop, fun rest' hdot => .stop (dot_turn_none hdot)⟩
  | turn hturn _ ih =>
    obtain ⟨t, rfl, hfollows, hname⟩ := dot_turn_eq_some.mp hturn
    have htoken := hpart t _ hname
    subst htoken
    obtain ⟨rfl, hrest⟩ := ih
    refine ⟨rfl, fun rest' hdot => ?_⟩
    exact .turn (dot_turn_eq_some.mpr ⟨_, rfl, hfollows, hname⟩) (hrest rest' hdot)

/-- A dotted name is taken as it is written, in front of anything but a dot. -/
theorem dotted_eq_ok (hhead : ∀ t name, head t = some name → t = name.token)
    (hpart : ∀ t name, part t = some name → t = name.token) {name : ObjectName}
    (h : parse_dotted head part follows error ts = .ok (name, rest)) :
    ts = object_name_tokens name ++ rest ∧
      (∃ first parts, name = first :: parts ∧ head first.token = some first) ∧
      ∀ rest' : List Token, rest'.head? ≠ some (.punctuation .Dot) →
        parse_dotted head part follows error (object_name_tokens name ++ rest') =
          .ok (name, rest') := by
  obtain ⟨⟨first, mid⟩, hfirst, h⟩ := bind_eq_ok.mp h
  obtain ⟨⟨parts, behind⟩, hparts, heq⟩ := bind_eq_ok.mp h
  cases heq
  rw [token_apply] at hfirst
  cases ts with
  | nil => cases hfirst
  | cons t ts =>
    cases hname : head t with
    | none => simp [hname] at hfirst
    | some found =>
      simp only [List.head?_cons, Option.bind_some, hname, Option.elim_some, List.tail_cons,
        Except.ok.injEq, Prod.mk.injEq] at hfirst
      obtain ⟨rfl, rfl⟩ := hfirst
      have htoken := hhead t found hname
      subst htoken
      obtain ⟨rfl, hlists⟩ := dotted_lists hpart ((many_eq_ok dot_turn_shrinks).mp hparts)
      refine ⟨rfl, ⟨found, parts, rfl, hname⟩, ?_⟩
      intro rest' hdot
      have hmany := (many_eq_ok dot_turn_shrinks).mpr (hlists rest' hdot)
      simp [parse_dotted, token_apply, object_name_tokens, hname, hmany]

theorem column_part_token {t : Token} {name : Name} (h : column_part features t = some name) :
    t = name.token := by
  obtain ⟨found, hfound, rfl⟩ := Option.map_eq_some_iff.mp h
  exact expr.column_name_token hfound

theorem label_part_token {t : Token} {name : Name} (h : label_part reserved_as_label t = some name) :
    t = name.token := by
  obtain ⟨found, hfound, rfl⟩ := Option.map_eq_some_iff.mp h
  rw [as_label] at hfound
  split at hfound
  · cases hfound
  · exact label_token hfound

end

end squonk.parser.clause
