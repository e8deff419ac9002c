import Squonk.Letters.Basic
import Squonk.Listing.Rewritten
import Squonk.Parser.Clause.Words
import Squonk.Parser.Expr.Reader

/-!
# Words and names that are written again

A word is written as the keyword it is, and a name as it stood. No reader of a clause tells a word
from another spelling of it, nor the words that separate two parts of a statement from each other.
-/

open squonk.ast squonk.tokenizer squonk.dialect listing listing.Reader

namespace squonk.parser.clause

/-- The token that a word in lower case is written as. -/
def written (word : String) : Token :=
  match Keyword.all.find? fun keyword => keyword.as_str == word with
  | some keyword => .keyword keyword
  | none => .word (word.toList.map Char.toUpper)

/-- Whether a word in capitals is the word again in lower case. -/
def in_lower_case (word : List Char) : Bool := (word.map Char.toUpper).map Char.toLower == word

theorem spelled_written_lower {word : String} (h : in_lower_case word.toList = true) :
    spelled (written word) = some word.toList := by
  rw [written]
  cases hfind : Keyword.all.find? fun keyword => keyword.as_str == word with
  | none => exact congrArg some (beq_iff_eq.mp h)
  | some keyword =>
    have htest := List.find?_some hfind
    have heq : keyword.as_str = word := beq_iff_eq.mp htest
    rw [← heq]
    rfl

def Name.token : Name → Token
  | .ident name => expr.ident_token name
  | .text raw => .string raw

/-- A list with commas between its items. -/
def comma_list {α : Type} (write : α → List Token) : List α → List Token
  | [] => []
  | a :: as => write a ++ as.flatMap fun a => .comma :: write a

def expect_contextual_keyword (word : String) : ParseResult Unit := do
  if ← eat_contextual_keyword word then
    return ()
  else
    fail word

/-- What the first word of a table that a token spells stands for. -/
def table_value {β : Type} (table : List (String × β)) (t : Token) : Option β :=
  (table.find? fun entry => token_is_contextual_keyword entry.1 t).map Prod.snd

theorem label_token {t : Token} {name : Ident} (h : label t = some name) :
    t = expr.ident_token name := by
  cases t with
  | word text | quoted_ident text | keyword keyword =>
    cases Option.some.inj h
    rfl
  | _ => cases h

theorem string_alias_token {t : Token} {name : Name} (h : string_alias t = some name) :
    t = name.token := by
  cases t with
  | string raw =>
    rw [string_alias] at h
    split at h
    · cases Option.some.inj h
      rfl
    · cases h
  | _ => cases h

/-! ## Tokens that start alike -/

/-- What a reader sees of the token behind what it takes. -/
inductive Lead
  | nothing
  | separator
  | word (letters : List Char)
  | other (t : Token)

section
variable (separators : List String)

def lead : Option Token → Lead
  | none => .nothing
  | some t =>
    match spelled t with
    | some letters =>
      if separators.any fun word => word.toList == letters then .separator else .word letters
    | none => .other t

/-- The same word, two of the separators, or one token. Behind a name, what stands behind a dot is
seen too. -/
def Alike (x y : Option Token) : Prop :=
  x ≠ some (.punctuation .Dot) ∧ lead separators x = lead separators y

end

variable {separators : List String} {word : String} {t c : Token} {ts rest : List Token}

theorem alike_self (h : t ≠ .punctuation .Dot) : Alike separators (some t) (some t) := by
  refine ⟨?_, rfl⟩
  intro hdot
  exact h (Option.some.inj hdot)

theorem alike_spelled {letters : List Char} (ht : spelled t = some letters)
    (hc : spelled c = some letters) : Alike separators (some t) (some c) := by
  constructor
  · intro hdot
    cases Option.some.inj hdot
    cases ht
  · rw [lead, lead, ht, hc]

theorem alike_separators {word' : String} (ht : spelled t = some word.toList)
    (hc : spelled c = some word'.toList) (hword : word ∈ separators) (hword' : word' ∈ separators) :
    Alike separators (some t) (some c) := by
  have hlead : ∀ w ∈ separators, ∀ t, spelled t = some w.toList →
      lead separators (some t) = .separator := by
    intro w hw t ht
    have hany : (separators.any fun v => v.toList == w.toList) = true :=
      List.any_eq_true.mpr ⟨w, hw, beq_self_eq_true _⟩
    rw [lead, ht]
    exact if_pos hany
  constructor
  · intro hdot
    cases Option.some.inj hdot
    cases ht
  · rw [hlead word hword t ht, hlead word' hword' c hc]

/-- A word that is no separator is seen in front. -/
theorem any_contextual_iff (h : word ∉ separators) (x : Option Token) :
    x.any (token_is_contextual_keyword word) = true ↔ lead separators x = .word word.toList := by
  cases x with
  | none => exact iff_of_false Bool.false_ne_true (by simp [lead])
  | some t =>
    rw [Option.any_some, token_is_contextual_keyword, beq_iff_eq, lead]
    cases hspelled : spelled t with
    | none => simp
    | some letters =>
      have hany : letters = word.toList →
          (separators.any fun v => v.toList == letters) = false := by
        rintro rfl
        rw [List.any_eq_false]
        intro v hv hletters
        rw [beq_iff_eq, String.toList_inj] at hletters
        exact h (hletters ▸ hv)
      by_cases hletters : letters = word.toList
      · simp [hletters ▸ hany hletters, hletters]
      · have hne : ¬ some letters = some word.toList := by
          rw [Option.some.injEq]
          exact hletters
        refine iff_of_false hne ?_
        dsimp only
        split
        · simp
        · simp [hletters]

theorem lead_eq_dot {x : Option Token} (h : lead separators x = .other (.punctuation .Dot)) :
    x = some (.punctuation .Dot) := by
  cases x with
  | none => cases h
  | some t =>
    rw [lead] at h
    cases hspelled : spelled t with
    | none =>
      rw [hspelled] at h
      cases h
      rfl
    | some letters =>
      rw [hspelled] at h
      dsimp only at h
      split at h <;> cases h

theorem respects_contextual (h : word ∉ separators) :
    Respects (Alike separators) (token_is_contextual_keyword word) := by
  intro x y halike
  rw [Bool.eq_iff_iff, any_contextual_iff h, any_contextual_iff h, halike.2]

theorem respects_punct (punct : Punctuation) :
    Respects (Alike separators) (· == .punctuation punct) := by
  have hseen : ∀ x : Option Token, x.any (· == .punctuation punct) = true ↔
      lead separators x = .other (.punctuation punct) := by
    intro x
    cases x with
    | none => exact iff_of_false Bool.false_ne_true (by simp [lead])
    | some t =>
      rw [Option.any_some, beq_iff_eq, lead]
      cases hspelled : spelled t with
      | none => simp
      | some letters =>
        have hne : t ≠ .punctuation punct := by
          rintro rfl
          cases hspelled
        refine iff_of_false hne ?_
        dsimp only
        split <;> simp
  intro x y halike
  rw [Bool.eq_iff_iff, hseen, hseen, halike.2]

theorem respects_words {words : List String} (h : ∀ word ∈ words, word ∉ separators) :
    Respects (Alike separators) fun t => words.any fun word => token_is_contextual_keyword word t := by
  have hsome : ∀ x : Option Token,
      (x.any fun t => words.any fun word => token_is_contextual_keyword word t) = true ↔
        ∃ word ∈ words, x.any (token_is_contextual_keyword word) = true := by
    intro x
    cases x with
    | none => simp
    | some t => exact List.any_eq_true
  intro x y halike
  rw [Bool.eq_iff_iff, hsome, hsome]
  constructor
  · rintro ⟨word, hword, htest⟩
    exact ⟨word, hword, respects_contextual (h word hword) _ _ halike ▸ htest⟩
  · rintro ⟨word, hword, htest⟩
    exact ⟨word, hword, (respects_contextual (h word hword) _ _ halike).symm ▸ htest⟩

section
variable {β : Type} {table : List (String × β)} {b : β}

theorem table_value_spelled (h : spelled t = spelled c) :
    table_value table t = table_value table c := by
  have htest : ∀ word, token_is_contextual_keyword word t = token_is_contextual_keyword word c := by
    intro word
    rw [token_is_contextual_keyword, token_is_contextual_keyword, h]
  simp only [table_value, htest]

theorem table_value_eq_some (h : table_value table t = some b) :
    ∃ word, (word, b) ∈ table ∧ spelled t = some word.toList := by
  obtain ⟨⟨word, b'⟩, hfind, rfl⟩ := Option.map_eq_some_iff.mp h
  have htest : token_is_contextual_keyword word t = true := by
    have hfound := List.find?_some hfind
    exact hfound
  exact ⟨word, List.mem_of_find?_eq_some hfind, beq_iff_eq.mp htest⟩

/-- The entries of a table whose words differ are read off the words that are written for them. -/
theorem table_value_written (hlower : ∀ entry ∈ table, in_lower_case entry.1.toList = true)
    (hnodup : (table.map Prod.fst).Nodup) : ∀ entry ∈ table,
      spelled (written entry.1) = some entry.1.toList ∧
        table_value table (written entry.1) = some entry.2 := by
  intro entry hentry
  have hspelled := spelled_written_lower (hlower entry hentry)
  refine ⟨hspelled, ?_⟩
  rw [table_value]
  cases hfind : table.find? fun entry' => token_is_contextual_keyword entry'.1 (written entry.1) with
  | none =>
    have hne := List.find?_eq_none.mp hfind entry hentry
    rw [token_is_contextual_keyword, hspelled] at hne
    exact absurd (beq_self_eq_true _) hne
  | some entry' =>
    have htest := List.find?_some hfind
    rw [token_is_contextual_keyword, hspelled] at htest
    have hword : entry.1 = entry'.1 :=
      String.toList_inj.mp (Option.some.inj (beq_iff_eq.mp htest))
    rw [List.inj_on_of_nodup_map hnodup hentry (List.mem_of_find?_eq_some hfind) hword]
    rfl

theorem table_value_isSome (t : Token) :
    (table_value table t).isSome =
      (table.map Prod.fst).any fun word => token_is_contextual_keyword word t := by
  rw [table_value, Option.isSome_map, Bool.eq_iff_iff, List.find?_isSome, List.any_eq_true]
  simp

end

/-! ## Words, names and lists -/

theorem spelled_ne_dot {letters : List Char} (h : spelled t = some letters) :
    t ≠ .punctuation .Dot := by
  rintro rfl
  cases h

variable (separators)

/-- A word that was taken is written for itself. -/
theorem rewrites_eat_true (hword : spelled (written word) = some word.toList)
    (h : eat_contextual_keyword word ts = .ok (true, rest)) :
    ∃ used, Rewrites (Alike separators) (eat_contextual_keyword word) (eat_contextual_keyword word)
      ts true true rest used [written word] := by
  obtain ⟨t, rfl, htest⟩ := accept_eq_true h
  have hspelled : spelled t = some word.toList := beq_iff_eq.mp htest
  refine ⟨[t], .accept_true htest (beq_iff_eq.mpr hword) ?_ ?_⟩
  · exact alike_self (spelled_ne_dot hspelled)
  · exact alike_spelled hspelled hword

/-- An optional word is written where it was taken. -/
theorem rewrites_eat (hseparator : word ∉ separators)
    (hword : spelled (written word) = some word.toList) {taken : Bool}
    (h : eat_contextual_keyword word ts = .ok (taken, rest)) :
    ∃ used, Rewrites (Alike separators) (eat_contextual_keyword word) (eat_contextual_keyword word)
      ts taken taken rest used (if taken then [written word] else []) := by
  cases taken with
  | true => exact rewrites_eat_true separators hword h
  | false =>
    obtain ⟨hnot, rfl⟩ := accept_eq_false h
    exact ⟨[], .accept_false (respects_contextual hseparator) hnot⟩

omit separators in
theorem expect_apply (h : spelled t = some word.toList) :
    expect_contextual_keyword word (t :: ts) = .ok ((), ts) := by
  rw [expect_contextual_keyword, eat_contextual_same h]
  rfl

omit separators in
theorem eat_apply (h : spelled t = some word.toList) :
    eat_contextual_keyword word (t :: ts) = .ok (true, ts) := by
  rw [eat_contextual_cons h, if_pos rfl, beq_self_eq_true]

theorem rewrites_expect (hword : spelled (written word) = some word.toList)
    (h : expect_contextual_keyword word ts = .ok ((), rest)) :
    ∃ used, Rewrites (Alike separators) (expect_contextual_keyword word)
      (expect_contextual_keyword word) ts () () rest used [written word] := by
  obtain ⟨⟨taken, mid⟩, heat, hrest⟩ := bind_eq_ok.mp h
  cases taken with
  | false => cases hrest
  | true =>
    cases hrest
    obtain ⟨used, hused⟩ := rewrites_eat_true separators hword heat
    exact ⟨used, hused.bind_last (.pure () ())⟩

/-- A token is written as it stood, or as another spelling of its word that stands for the
same. -/
theorem rewrites_token_as {α : Type} {means : Token → Option α} {token_of : α → Token}
    {f : α → α} {error : String}
    (hmeans : ∀ t a, means t = some a → means (token_of a) = some (f a) ∧
      (t = token_of a ∨ (spelled t).isSome = true ∧ spelled t = spelled (token_of a)))
    (hdot : means (.punctuation .Dot) = none) {a : α}
    (h : token means error ts = .ok (a, rest)) :
    ∃ used, Rewrites (Alike separators) (token means error) (token means error) ts a (f a) rest
      used [token_of a] := by
  rw [token_apply] at h
  cases ts with
  | nil => cases h
  | cons t ts =>
    cases hname : means t with
    | none => simp [hname] at h
    | some b =>
      simp only [List.head?_cons, Option.bind_some, hname, Option.elim_some, List.tail_cons,
        Except.ok.injEq, Prod.mk.injEq] at h
      obtain ⟨rfl, rfl⟩ := h
      have hne : t ≠ .punctuation .Dot := by
        rintro rfl
        rw [hdot] at hname
        cases hname
      obtain ⟨hwritten, hsame | ⟨hsome, hspelled⟩⟩ := hmeans t b hname
      · exact ⟨[t], .token hname hwritten (alike_self hne) (hsame ▸ alike_self hne)⟩
      · obtain ⟨letters, hletters⟩ := Option.isSome_iff_exists.mp hsome
        have halike : Alike separators (some t) (some (token_of b)) :=
          alike_spelled hletters (hspelled ▸ hletters)
        exact ⟨[t], .token hname hwritten (alike_self hne) halike⟩

/-- A token that stands for a name is written as it stood. -/
theorem rewrites_token {α : Type} {means : Token → Option α} {token_of : α → Token}
    {error : String} (hmeans : ∀ t a, means t = some a → t = token_of a)
    (hdot : means (.punctuation .Dot) = none) {a : α}
    (h : token means error ts = .ok (a, rest)) :
    ∃ used, Rewrites (Alike separators) (token means error) (token means error) ts a a rest used
      [token_of a] := by
  have hsame : ∀ t a, means t = some a → means (token_of a) = some (id a) ∧
      (t = token_of a ∨ (spelled t).isSome = true ∧ spelled t = spelled (token_of a)) := by
    intro t a ht
    have htoken := hmeans t a ht
    exact ⟨htoken ▸ ht, .inl htoken⟩
  exact rewrites_token_as separators hsame hdot h

/-- A word of a table is written as the table has it. -/
theorem rewrites_optional {β : Type} {table : List (String × β)} (word_of : β → String)
    (htable : ∀ entry ∈ table, entry.1 = word_of entry.2 ∧ entry.1 ∉ separators ∧
      spelled (written entry.1) = some entry.1.toList)
    {found : Option β} (h : optional_token (table_value table) ts = .ok (found, rest)) :
    ∃ used, Rewrites (Alike separators) (optional_token (table_value table))
      (optional_token (table_value table)) ts found found rest used
      (found.toList.map fun b => written (word_of b)) := by
  rw [optional_token_apply] at h
  obtain ⟨rfl, rfl⟩ := Prod.mk.inj (Except.ok.inj h)
  cases hfound : ts.head?.bind (table_value table) with
  | none =>
    have hrespects : Respects (Alike separators) fun t => (table_value table t).isSome := by
      simp only [table_value_isSome]
      refine respects_words ?_
      intro word hword
      obtain ⟨entry, hentry, rfl⟩ := List.mem_map.mp hword
      exact (htable entry hentry).2.1
    have hnone : ∀ x : Option Token, x.any (fun t => (table_value table t).isSome) =
        (x.bind (table_value table)).isSome := by
      intro x
      cases x <;> rfl
    have hrun : ∀ rest', Alike separators ts.head? rest'.head? →
        optional_token (table_value table) rest' = .ok (none, rest') := by
      intro rest' halike
      have hsame := hrespects _ _ halike
      rw [hnone, hnone, hfound] at hsame
      have hnone' : rest'.head?.bind (table_value table) = none :=
        Option.not_isSome_iff_eq_none.mp (by rw [← hsame]; exact Bool.false_ne_true)
      rw [optional_token_apply, hnone']
      rfl
    exact ⟨[], rfl, fun _ halike => ⟨halike, halike⟩, hrun, hrun⟩
  | some b =>
    cases ts with
    | nil => cases hfound
    | cons t ts =>
      obtain ⟨word, hentry, hspelled⟩ := table_value_eq_some hfound
      obtain ⟨hword, -, hwritten⟩ := htable (word, b) hentry
      have hvalue : table_value table (written (word_of b)) = some b := by
        rw [← hword, ← hfound]
        exact table_value_spelled (hwritten.trans hspelled.symm)
      have halike : Alike separators (some t) (some (written (word_of b))) :=
        alike_spelled hspelled (hword ▸ hwritten)
      refine ⟨[t], rfl, fun _ _ => ⟨alike_self (spelled_ne_dot hspelled), halike⟩, ?_, ?_⟩
      · intro rest' _
        rw [optional_token_apply]
        have hsource : table_value table t = some b := hfound
        simp [hsource]
      · intro rest' _
        rw [optional_token_apply]
        simp [hvalue]

theorem rewrites_eat_punct {punct : Punctuation} {taken : Bool} (hdot : punct ≠ .Dot)
    (h : eat_punct punct ts = .ok (taken, rest)) :
    ∃ used, Rewrites (Alike separators) (eat_punct punct) (eat_punct punct) ts taken taken rest used
      (if taken then [.punctuation punct] else []) := by
  cases taken with
  | true =>
    obtain ⟨t, rfl, htest⟩ := accept_eq_true h
    have ht : t = .punctuation punct := beq_iff_eq.mp htest
    subst ht
    have hne : Token.punctuation punct ≠ .punctuation .Dot := by
      intro heq
      exact hdot (Token.punctuation.inj heq)
    exact ⟨_, .accept_true htest htest (alike_self hne) (alike_self hne)⟩
  | false =>
    obtain ⟨hnot, rfl⟩ := accept_eq_false h
    exact ⟨[], .accept_false (respects_punct punct) hnot⟩

theorem rewrites_punct {punct : Punctuation} {error : String} (hdot : punct ≠ .Dot)
    (h : expect_punct punct error ts = .ok ((), rest)) :
    ∃ used, Rewrites (Alike separators) (expect_punct punct error) (expect_punct punct error) ts
      () () rest used [.punctuation punct] := by
  obtain ⟨⟨taken, mid⟩, haccept, hrest⟩ := bind_eq_ok.mp h
  cases taken with
  | false => cases hrest
  | true =>
    cases hrest
    obtain ⟨used, hused⟩ := rewrites_eat_punct separators hdot haccept
    exact ⟨used, hused.bind_last (.pure () ())⟩

section
variable {α : Type} {item : ParseResult α} {f : α → α} {write : α → List Token} {good : α → Prop}

/-- The items behind the first are written with their commas. -/
theorem rewrites_comma (hitem : ∀ ts a rest, item ts = .ok (a, rest) → ∃ used new,
      Rewrites (Alike separators) item item ts a (f a) rest used new ∧ (good a → new = write a)) :
    WritesItem (Alike separators) (comma_turn item) f good fun a => .comma :: write a := by
  have hturn : ∀ ts a rest, comma_turn item ts = .ok (some a, rest) →
      ∃ mid, ts = .comma :: mid ∧ item mid = .ok (a, rest) := by
    intro ts a rest h
    obtain ⟨⟨taken, mid⟩, haccept, hrest⟩ := bind_eq_ok.mp h
    cases taken with
    | false => cases hrest
    | true =>
      obtain ⟨t, rfl, ht⟩ := accept_eq_true haccept
      obtain ⟨⟨a', mid'⟩, hone, heq⟩ := bind_eq_ok.mp hrest
      cases heq
      exact ⟨mid, by rw [beq_iff_eq.mp ht], hone⟩
  refine ⟨?_, ?_, ?_⟩
  · intro ts a rest h
    obtain ⟨mid, rfl, hone⟩ := hturn ts a rest h
    obtain ⟨used, new, hrewrites, -⟩ := hitem mid a rest hone
    rw [hrewrites.split, List.length_cons, List.length_append]
    omega
  · intro ts a rest h
    obtain ⟨mid, rfl, hone⟩ := hturn ts a rest h
    obtain ⟨used, new, hrewrites, hgood⟩ := hitem mid a rest hone
    have hdot : Token.comma ≠ .punctuation .Dot := by decide
    have hcomma : Rewrites (Alike separators) (eat_punct .Comma) (eat_punct .Comma)
        (.comma :: mid) true true mid [.comma] [.comma] :=
      .accept_true rfl rfl (alike_self hdot) (alike_self hdot)
    have hall : Rewrites (Alike separators) (comma_turn item) (comma_turn item) (.comma :: mid)
        (some a) (some (f a)) rest ([.comma] ++ used) ([.comma] ++ new) :=
      hcomma.bind (hrewrites.bind_pure some)
    refine ⟨_, _, hall, ?_⟩
    intro ha
    rw [hgood ha]
    rfl
  · intro ts rest h
    obtain ⟨⟨taken, mid⟩, haccept, hrest⟩ := bind_eq_ok.mp h
    cases taken with
    | true =>
      obtain ⟨⟨a, mid⟩, -, heq⟩ := bind_eq_ok.mp hrest
      cases heq
    | false =>
      cases hrest
      obtain ⟨hnot, rfl⟩ := accept_eq_false haccept
      exact (Rewrites.accept_false (respects_punct .Comma) hnot).bind (.pure none none)

theorem rewrites_comma_separated (hitem : ∀ ts a rest, item ts = .ok (a, rest) → ∃ used new,
      Rewrites (Alike separators) item item ts a (f a) rest used new ∧ (good a → new = write a))
    {as : List α} (h : parse_comma_separated item ts = .ok (as, rest)) :
    ∃ used new, Rewrites (Alike separators) (parse_comma_separated item)
      (parse_comma_separated item) ts as (as.map f) rest used new ∧
      ((∀ a ∈ as, good a) → new = comma_list write as) := by
  obtain ⟨⟨head, mid⟩, hhead, h⟩ := bind_eq_ok.mp h
  obtain ⟨⟨tail, mid'⟩, htail, heq⟩ := bind_eq_ok.mp h
  cases heq
  obtain ⟨used, new, hone, hgood⟩ := hitem ts head mid hhead
  obtain ⟨used', new', hmany, hgood'⟩ := (rewrites_comma separators hitem).many htail
  have htail' : Rewrites (Alike separators) (do return head :: (← many (comma_turn item)))
      (do return f head :: (← many (comma_turn item))) mid (head :: tail) (f head :: tail.map f)
      rest used' new' := hmany.bind_last (.pure _ _)
  have hall : Rewrites (Alike separators) (parse_comma_separated item)
      (parse_comma_separated item) ts (head :: tail) ((head :: tail).map f) rest (used ++ used')
      (new ++ new') := hone.bind htail'
  refine ⟨_, _, hall, ?_⟩
  intro hgoods
  rw [hgood (hgoods head List.mem_cons_self),
    hgood' fun a ha => hgoods a (List.mem_cons_of_mem head ha)]
  rfl

/-- A list of items that are written for themselves. -/
theorem rewrites_comma_list (hitem : ∀ ts a rest, item ts = .ok (a, rest) → ∃ used,
      Rewrites (Alike separators) item item ts a a rest used (write a))
    {as : List α} (h : parse_comma_separated item ts = .ok (as, rest)) :
    ∃ used, Rewrites (Alike separators) (parse_comma_separated item)
      (parse_comma_separated item) ts as as rest used (comma_list write as) := by
  have hitem' : ∀ ts a rest, item ts = .ok (a, rest) → ∃ used new,
      Rewrites (Alike separators) item item ts a (id a) rest used new ∧
        (True → new = write a) := by
    intro ts a rest h
    obtain ⟨used, hrewrites⟩ := hitem ts a rest h
    exact ⟨used, write a, hrewrites, fun _ => rfl⟩
  obtain ⟨used, new, hrewrites, hnew⟩ := rewrites_comma_separated separators hitem' h
  rw [List.map_id, hnew fun _ _ => trivial] at hrewrites
  exact ⟨used, hrewrites⟩

end

/-! ## Lists behind their commas -/

section
variable {α : Type} {item : ParseResult α} {f : α → α} {write : α → List Token}

/-- A list is not empty, and every item of it was read. -/
theorem comma_separated_mem {as : List α} {ts rest : List Token}
    (h : parse_comma_separated item ts = .ok (as, rest)) :
    ∃ head tail mid, as = head :: tail ∧ item ts = .ok (head, mid) ∧
      ∀ a ∈ as, ∃ ts rest, item ts = .ok (a, rest) := by
  obtain ⟨⟨head, mid⟩, hhead, h⟩ := bind_eq_ok.mp h
  obtain ⟨⟨tail, behind⟩, htail, heq⟩ := bind_eq_ok.mp h
  cases heq
  refine ⟨head, tail, mid, rfl, hhead, ?_⟩
  intro a ha
  obtain rfl | hmem := List.mem_cons.mp ha
  · exact ⟨ts, mid, hhead⟩
  · obtain ⟨ts', rest', hturn⟩ := many_mem htail a hmem
    obtain ⟨⟨taken, mid'⟩, -, hturn⟩ := bind_eq_ok.mp hturn
    cases taken with
    | false => cases hturn
    | true =>
      obtain ⟨⟨a', last⟩, hitem, heq⟩ := bind_eq_ok.mp hturn
      cases heq
      exact ⟨mid', rest', hitem⟩

theorem comma_turn_comma {ts rest : List Token} {a : α} (h : item ts = .ok (a, rest)) :
    comma_turn item (.comma :: ts) = .ok (some a, rest) := by
  have heat : eat_punct .Comma (.comma :: ts) = .ok (true, ts) := rfl
  rw [comma_turn, bind_apply, heat, bind_ok, if_pos rfl, bind_apply, h]
  rfl

theorem comma_turn_none {ts : List Token} (h : ts.head? ≠ some .comma) :
    comma_turn item ts = .ok (none, ts) := by
  have heat : eat_punct .Comma ts = .ok (false, ts) := by
    apply accept_apply_false
    cases ts with
    | nil => rfl
    | cons t ts =>
      have hne : t ≠ .punctuation .Comma := by
        rintro rfl
        exact h rfl
      exact beq_false_of_ne hne
  rw [comma_turn, bind_apply, heat]
  rfl

/-- A list that is written with its commas is read again. -/
theorem comma_list_written {goes : List Token → Prop} (hcomma : ∀ ts, goes (.comma :: ts))
    {as : List α} {rest : List Token} (hne : as ≠ [])
    (hitem : ∀ a ∈ as, ∀ rest, goes rest → item (write a ++ rest) = .ok (f a, rest))
    (hrest : goes rest) (hnot : rest.head? ≠ some .comma) :
    parse_comma_separated item (comma_list write as ++ rest) = .ok (as.map f, rest) := by
  cases as with
  | nil => exact absurd rfl hne
  | cons a as =>
    have hgoes : goes ((as.flatMap fun a => .comma :: write a) ++ rest) := by
      cases as with
      | nil => exact hrest
      | cons b as => exact hcomma _
    have hone := hitem a List.mem_cons_self _ hgoes
    have hturn : ∀ b ∈ as, ∀ rest, goes rest →
        comma_turn item ((.comma :: write b) ++ rest) = .ok (some (f b), rest) := by
      intro b hb rest hrest
      exact comma_turn_comma (hitem b (List.mem_cons_of_mem a hb) rest hrest)
    have htail := many_written (fun b _ => List.cons_ne_nil .comma (write b))
      (fun _ _ _ => hcomma _) hturn hrest (comma_turn_none hnot)
    rw [comma_list, List.append_assoc, parse_comma_separated, bind_apply, hone, bind_ok,
      bind_apply, htail]
    rfl

/-- A list is read again exactly where each item of it is. -/
theorem comma_list_iff {goes : List Token → Prop} {reads : α → Prop}
    (hcomma : ∀ ts, goes (.comma :: ts)) {as : List α} {rest : List Token} (hne : as ≠ [])
    (hitem : ∀ a ∈ as, reads a → ∀ rest, goes rest → item (write a ++ rest) = .ok (f a, rest))
    (hback : ∀ a ∈ as, ∀ rest behind, goes rest →
      item (write a ++ rest) = .ok (f a, behind) → reads a)
    (hrest : goes rest) (hnot : rest.head? ≠ some .comma) :
    parse_comma_separated item (comma_list write as ++ rest) = .ok (as.map f, rest) ↔
      ∀ a ∈ as, reads a := by
  constructor
  · intro h
    cases as with
    | nil => exact absurd rfl hne
    | cons a as =>
      have hgoes : goes ((as.flatMap fun a => .comma :: write a) ++ rest) := by
        cases as with
        | nil => exact hrest
        | cons b as => exact hcomma _
      rw [comma_list, List.append_assoc, parse_comma_separated] at h
      obtain ⟨⟨head, mid⟩, hone, h⟩ := bind_eq_ok.mp h
      obtain ⟨⟨tail, last⟩, htail, heq⟩ := bind_eq_ok.mp h
      cases heq
      have hreads := hback a List.mem_cons_self _ mid hgoes hone
      have hmid := (hitem a List.mem_cons_self hreads _ hgoes).symm.trans hone
      cases hmid
      have hturn : ∀ b ∈ as, reads b → ∀ rest, goes rest →
          comma_turn item ((.comma :: write b) ++ rest) = .ok (some (f b), rest) := by
        intro b hb hreads rest hrest
        exact comma_turn_comma (hitem b (List.mem_cons_of_mem a hb) hreads rest hrest)
      have hturn_back : ∀ b ∈ as, ∀ rest behind, goes rest →
          comma_turn item ((.comma :: write b) ++ rest) = .ok (some (f b), behind) → reads b := by
        intro b hb rest behind hrest hturn
        obtain ⟨⟨c, last⟩, hone, heq⟩ := bind_eq_ok.mp hturn
        cases heq
        exact hback b (List.mem_cons_of_mem a hb) rest behind hrest hone
      rw [many, bind_apply, look_apply, bind_ok] at htail
      have hall := turns_back (fun _ _ _ => hcomma _) hturn hturn_back hrest htail
      intro b hb
      obtain rfl | hmem := List.mem_cons.mp hb
      · exact hreads
      · exact hall b hmem
  · intro hreads
    exact comma_list_written hcomma hne (fun a ha => hitem a ha (hreads a ha)) hrest hnot

end

end squonk.parser.clause
