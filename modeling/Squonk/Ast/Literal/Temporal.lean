import Squonk.Ast.Literal.StringText

/-!
# Temporal literals

The value string of a temporal literal is found again in the text of the literal, by the first of
its quotes and dollar signs and by the last of its quotes. It is found exactly where neither
stands in front of it and no quote behind it, and where it has a form that the search knows.
-/

open squonk.dialect squonk.tokenizer

namespace squonk.ast.literal

/-! ## The search -/

/-- The place behind the first delimiter of the text, which begins at a place. -/
def dollar_close (delim : List Char) : Nat → List Char → Option Nat
  | _, [] => none
  | close, c :: rest =>
    if delim.isPrefixOf (c :: rest) then some (close + delim.length)
    else dollar_close delim (close + 1) rest

def dollar_quoted_token_len (text : List Char) : Option Nat := do
  let delim_len ← dollar_open_delim_len text
  dollar_close (text.take delim_len) delim_len (text.drop delim_len)

def rposition (p : Char → Bool) (text : List Char) : Option Nat :=
  (text.reverse.findIdx? p).map (text.length - 1 - ·)

def is_quote (c : Char) : Bool := c == single_quote

def is_dollar (c : Char) : Bool := c == '$'

def is_escape_marker (c : Char) : Bool := c == 'E' || c == 'e'

/-- Whether the last of the characters is the marker of an escape string that stands alone. -/
def ends_in_escape_marker (text : List Char) : Bool :=
  match text.reverse with
  | [] => false
  | marker :: front => is_escape_marker marker && !front.head?.any is_dollar_tag_continue

/-- Whether the first dollar sign stands in front of the first quote. -/
def dollar_first : Option Nat → Option Nat → Bool
  | some quote, some dollar => dollar < quote
  | none, some _ => true
  | _, none => false

/-- From where to where the value string goes in the text of a temporal literal. -/
def temporal_string_place (text : List Char) : Option (Nat × Nat) :=
  let first_quote := text.findIdx? is_quote
  let first_dollar := text.findIdx? is_dollar
  if dollar_first first_quote first_dollar then do
    let start ← first_dollar
    let len ← dollar_quoted_token_len (text.drop start)
    some (start, start + len)
  else do
    let quote ← first_quote
    let start := if ends_in_escape_marker (text.take quote) then quote - 1 else quote
    let last ← rposition is_quote text
    some (start, last + 1)

def temporal_string_token (text : List Char) : Option (List Char) :=
  (temporal_string_place text).map fun (start, stop) => (text.drop start).take (stop - start)

/-- Whether the kind is one of a literal whose value string stands behind a type. -/
def LiteralKind.is_temporal : LiteralKind → Bool
  | .Date | .Time _ | .Timestamp _ | .Interval _ _ => true
  | _ => false

def Literal.as_temporal_text (self : Literal) (source : List SourceByte) :
    Except AccessFault (List Char) := do
  (self.expect_kind .Temporal self.kind.is_temporal).mapError .error
  match temporal_string_token (← (self.source_text source).mapError .error) with
  | none => .error (.error (self.error .InvalidString))
  | some token => self.string_value (materialize_concatenated_string token false)

/-! ## Where the search ends -/

section

variable {p : Char → Bool}

theorem findIdx?_of_behind {front : List Char} (behind : List Char) {c : Char}
    (hfront : ∀ x ∈ front, p x = false) (hc : p c = true) :
    (front ++ c :: behind).findIdx? p = some front.length := by
  have hnone : front.findIdx? p = none := by
    simpa [List.findIdx?_eq_none_iff] using hfront
  rw [List.findIdx?_append, hnone, List.findIdx?_cons, if_pos hc]
  simp

theorem behind_of_findIdx? {front behind : List Char}
    (h : (front ++ behind).findIdx? p = some front.length) :
    (∀ x ∈ front, p x = false) ∧ ∃ c rest, behind = c :: rest ∧ p c = true := by
  obtain ⟨hlt, hp, hbefore⟩ := List.findIdx?_eq_some_iff_getElem.mp h
  refine ⟨fun x hx => ?_, ?_⟩
  · obtain ⟨i, hi, rfl⟩ := List.mem_iff_getElem.mp hx
    have hnot := hbefore i hi
    rw [List.getElem_append_left hi] at hnot
    simpa using hnot
  · cases behind with
    | nil => simp at hlt
    | cons c rest =>
      refine ⟨c, rest, rfl, ?_⟩
      simpa using hp

theorem forall_not_of_findIdx? {front behind : List Char} {n : Nat}
    (h : (front ++ behind).findIdx? p = some n) (hn : front.length ≤ n) :
    ∀ x ∈ front, p x = false := by
  intro x hx
  obtain ⟨hlt, hp, hbefore⟩ := List.findIdx?_eq_some_iff_getElem.mp h
  obtain ⟨i, hi, rfl⟩ := List.mem_iff_getElem.mp hx
  have hnot := hbefore i (Nat.lt_of_lt_of_le hi hn)
  rw [List.getElem_append_left hi] at hnot
  simpa using hnot

theorem rposition_eq_some_iff {front behind : List Char} {c : Char} :
    rposition p (front ++ c :: behind) = some front.length ↔
      p c = true ∧ ∀ x ∈ behind, p x = false := by
  have hreverse : (front ++ c :: behind).reverse = behind.reverse ++ c :: front.reverse := by simp
  unfold rposition
  rw [hreverse]
  constructor
  · intro h
    obtain ⟨i, hi, hlast⟩ := Option.map_eq_some_iff.mp h
    have hlt := (List.findIdx?_eq_some_iff_getElem.mp hi).1
    have hlength : i = behind.reverse.length := by
      simp only [List.length_append, List.length_cons, List.length_reverse] at hlast hlt ⊢
      omega
    subst hlength
    obtain ⟨hbehind, c', rest, hsplit, hc⟩ := behind_of_findIdx? hi
    obtain ⟨rfl, -⟩ := List.cons.inj hsplit
    exact ⟨hc, fun x hx => hbehind x (List.mem_reverse.mpr hx)⟩
  · rintro ⟨hc, hbehind⟩
    rw [findIdx?_of_behind _ (fun x hx => hbehind x (List.mem_reverse.mp hx)) hc]
    simp only [Option.map_some, List.length_append, List.length_cons, List.length_reverse,
      Option.some.injEq]
    omega

end

/-! ## Dollar-quoted strings -/

theorem takeWhile_of_getElem? {p : Char → Bool} {rest : List Char} (more : List Char) {c : Char}
    (h : rest[(rest.takeWhile p).length]? = some c) :
    (rest ++ more).takeWhile p = rest.takeWhile p := by
  have hlt := (List.getElem?_eq_some_iff.mp h).1
  rw [List.takeWhile_append, if_neg (Nat.ne_of_lt hlt)]

theorem dollar_open_delim_len_append {text : List Char} {n : Nat}
    (h : dollar_open_delim_len text = some n) (more : List Char) :
    2 ≤ n ∧ n ≤ text.length ∧ dollar_open_delim_len (text ++ more) = some n := by
  unfold dollar_open_delim_len at h
  split at h
  · cases h
    refine ⟨by omega, by simp, rfl⟩
  · next first rest hfirst =>
    split at h
    · next hstart =>
      simp only at h
      split at h
      · next hclose =>
        cases h
        have hlt := (List.getElem?_eq_some_iff.mp (beq_iff_eq.mp hclose)).1
        have htag := takeWhile_of_getElem? more (beq_iff_eq.mp hclose)
        refine ⟨by omega, by simp only [List.length_cons]; omega, ?_⟩
        have hclose' : ((rest ++ more)[(rest.takeWhile is_dollar_tag_continue).length]? ==
            some '$') = true := by
          rw [List.getElem?_append_left hlt]
          exact hclose
        simp only [List.cons_append]
        unfold dollar_open_delim_len
        split
        · next heq =>
          simp only [List.cons.injEq] at heq
          exact absurd heq.2.1 hfirst
        · next heq =>
          simp only [List.cons.injEq] at heq
          obtain ⟨-, rfl, rfl⟩ := heq
          simp only [hstart, if_true, htag, hclose']
        · next hnone => exact absurd rfl (hnone _ _)
      · cases h
    · cases h
  · cases h

theorem dollar_open_delim_len_of_append {text more : List Char} {n : Nat}
    (h : dollar_open_delim_len (text ++ more) = some n) (hn : n ≤ text.length) :
    dollar_open_delim_len text = some n := by
  obtain ⟨htwo, -, -⟩ := dollar_open_delim_len_append h []
  obtain _ | ⟨c, _ | ⟨first, rest⟩⟩ := text
  · simp only [List.length_nil] at hn
    omega
  · simp only [List.length_cons, List.length_nil] at hn
    omega
  · simp only [List.cons_append] at h
    unfold dollar_open_delim_len at h
    split at h
    · next heq =>
      simp only [List.cons.injEq] at heq
      obtain ⟨rfl, rfl, -⟩ := heq
      exact h
    · next hfirst heq =>
      simp only [List.cons.injEq] at heq
      obtain ⟨rfl, rfl, rfl⟩ := heq
      split at h
      · next hstart =>
        dsimp only at h
        split at h
        · next hclose =>
          cases h
          simp only [List.length_cons] at hn
          have htag : (rest ++ more).takeWhile is_dollar_tag_continue =
              rest.takeWhile is_dollar_tag_continue := by
            rw [List.takeWhile_append] at hn ⊢
            split at hn
            · simp only [List.length_append] at hn
              omega
            · rw [if_neg ‹_›]
          rw [htag] at hclose hn ⊢
          rw [List.getElem?_append_left (by omega)] at hclose
          unfold dollar_open_delim_len
          split
          · next heq =>
            simp only [List.cons.injEq] at heq
            exact absurd heq.2.1 hfirst
          · next heq =>
            simp only [List.cons.injEq] at heq
            obtain ⟨-, rfl, rfl⟩ := heq
            simp only [hstart, if_true, hclose]
          · next hnone => exact absurd rfl (hnone _ _)
        · cases h
      · cases h
    · cases h

theorem le_dollar_close {delim : List Char} {pos stop : Nat} {text : List Char}
    (h : dollar_close delim pos text = some stop) :
    pos + delim.length ≤ stop ∧ stop ≤ pos + text.length := by
  induction text generalizing pos with
  | nil => cases h
  | cons c rest ih =>
    unfold dollar_close at h
    split at h
    · next hfound =>
      cases h
      have hle := (List.isPrefixOf_iff_prefix.mp hfound).length_le
      exact ⟨Nat.le_refl _, Nat.add_le_add_left hle pos⟩
    · obtain ⟨hlow, hhigh⟩ := ih h
      simp only [List.length_cons]
      omega

/-- What stands behind the delimiter that is found has no part in the search. -/
theorem dollar_close_append_iff {delim : List Char} {pos stop : Nat} {text more : List Char}
    (hdelim : delim ≠ []) (hstop : stop ≤ pos + text.length) :
    dollar_close delim pos (text ++ more) = some stop ↔
      dollar_close delim pos text = some stop := by
  induction text generalizing pos with
  | nil =>
    have hlength := List.length_pos_iff.mpr hdelim
    refine ⟨fun h => ?_, by simp [dollar_close]⟩
    obtain ⟨hlow, -⟩ := le_dollar_close h
    simp only [List.length_nil, Nat.add_zero] at hstop
    omega
  | cons c rest ih =>
    simp only [List.length_cons] at hstop
    simp only [List.cons_append, dollar_close]
    by_cases hfound : delim.isPrefixOf (c :: rest) = true
    · have hfound' : delim.isPrefixOf (c :: (rest ++ more)) = true := by
        rw [List.isPrefixOf_iff_prefix] at hfound ⊢
        exact hfound.trans (List.prefix_append (c :: rest) more)
      rw [if_pos hfound, if_pos hfound']
    · rw [if_neg hfound]
      by_cases hacross : delim.isPrefixOf (c :: (rest ++ more)) = true
      · -- a delimiter that goes beyond the text ends too late
        rw [if_pos hacross]
        have hlong : rest.length + 1 < delim.length := by
          by_contra hshort
          refine hfound ?_
          rw [List.isPrefixOf_iff_prefix] at hacross ⊢
          exact List.prefix_of_prefix_length_le hacross (List.prefix_append (c :: rest) more)
            (by simp only [List.length_cons]; omega)
        refine ⟨fun h => ?_, fun h => ?_⟩
        · have heq := Option.some.inj h
          omega
        · obtain ⟨hlow, hhigh⟩ := le_dollar_close h
          omega
      · rw [if_neg hacross]
        exact ih (by omega)

theorem dollar_quoted_token_len_append_iff {text : List Char} (more : List Char) :
    dollar_quoted_token_len (text ++ more) = some text.length ↔
      dollar_quoted_token_len text = some text.length := by
  unfold dollar_quoted_token_len
  constructor
  · intro h
    obtain ⟨n, hopen, hclose⟩ := Option.bind_eq_some_iff.mp h
    obtain ⟨htwo, hle, -⟩ := dollar_open_delim_len_append hopen []
    have hdelim : ((text ++ more).take n).length = n := List.length_take_of_le hle
    obtain ⟨hlow, -⟩ := le_dollar_close hclose
    have hn : n ≤ text.length := by omega
    refine Option.bind_eq_some_iff.mpr ⟨n, dollar_open_delim_len_of_append hopen hn, ?_⟩
    rw [List.take_append_of_le_length hn, List.drop_append_of_le_length hn] at hclose
    rw [List.take_append_of_le_length hn] at hdelim
    refine (dollar_close_append_iff ?_ ?_).mp hclose
    · exact List.ne_nil_of_length_pos (by omega)
    · simp only [List.length_drop]
      omega
  · intro h
    obtain ⟨n, hopen, hclose⟩ := Option.bind_eq_some_iff.mp h
    obtain ⟨htwo, hle, hopen'⟩ := dollar_open_delim_len_append hopen more
    refine Option.bind_eq_some_iff.mpr ⟨n, hopen', ?_⟩
    rw [List.take_append_of_le_length hle, List.drop_append_of_le_length hle,
      dollar_close_append_iff]
    · exact hclose
    · exact List.ne_nil_of_length_pos (by rw [List.length_take_of_le hle]; omega)
    · simp only [List.length_drop]
      omega

/-! ## What the search finds -/

/-- A value string that the search finds between what stands in front of it and behind it. -/
inductive Findable (before value after : List Char) : Prop
  | quoted (hbefore : ∀ c ∈ before, is_quote c = false ∧ is_dollar c = false)
      (hmarker : ends_in_escape_marker before = false)
      (hfirst : value.head? = some single_quote) (hlast : value.getLast? = some single_quote)
      (hafter : ∀ c ∈ after, is_quote c = false)
  | escape (hbefore : ∀ c ∈ before, is_quote c = false ∧ is_dollar c = false)
      (halone : before.getLast?.any is_dollar_tag_continue = false)
      (hmarker : value.head?.any is_escape_marker = true) (hquote : value[1]? = some single_quote)
      (hlast : value.getLast? = some single_quote) (hafter : ∀ c ∈ after, is_quote c = false)
  | dollar (hbefore : ∀ c ∈ before, is_quote c = false ∧ is_dollar c = false)
      (hvalue : dollar_quoted_token_len value = some value.length)

theorem is_quote_iff {c : Char} : is_quote c = true ↔ c = single_quote := by
  simp [is_quote]

theorem is_dollar_iff {c : Char} : is_dollar c = true ↔ c = '$' := by
  simp [is_dollar]

theorem ends_in_escape_marker_append {text : List Char} {marker : Char} :
    ends_in_escape_marker (text ++ [marker]) =
      (is_escape_marker marker && !text.getLast?.any is_dollar_tag_continue) := by
  simp only [ends_in_escape_marker, List.reverse_append, List.reverse_singleton,
    List.singleton_append, List.head?_reverse]

theorem dollar_first_iff {quote dollar : Option Nat} :
    dollar_first quote dollar = true ↔ ∃ d, dollar = some d ∧ ∀ q, quote = some q → d < q := by
  cases dollar <;> cases quote <;> simp [dollar_first]

/-- Where a dollar sign comes first, the value string is the dollar-quoted one that it opens. -/
theorem place_of_dollar {text : List Char} {dollar : Nat}
    (hdollar : text.findIdx? is_dollar = some dollar)
    (hquote : ∀ quote, text.findIdx? is_quote = some quote → dollar < quote) :
    temporal_string_place text =
      (dollar_quoted_token_len (text.drop dollar)).map fun len => (dollar, dollar + len) := by
  have hfirst := dollar_first_iff.mpr ⟨dollar, hdollar, hquote⟩
  unfold temporal_string_place
  dsimp only
  rw [if_pos hfirst, hdollar]
  cases hlen : dollar_quoted_token_len (text.drop dollar) <;> simp [hlen]

/-- Where a quote comes first, the value string goes up to the last quote. -/
theorem place_of_quote {text : List Char} {quote : Nat}
    (hquote : text.findIdx? is_quote = some quote)
    (hdollar : ∀ dollar, text.findIdx? is_dollar = some dollar → quote < dollar) :
    temporal_string_place text = (rposition is_quote text).map fun last =>
      (if ends_in_escape_marker (text.take quote) then quote - 1 else quote, last + 1) := by
  have hfirst : dollar_first (text.findIdx? is_quote) (text.findIdx? is_dollar) = false := by
    refine Bool.eq_false_of_not_eq_true fun hfirst => ?_
    obtain ⟨dollar, hd, hbefore⟩ := dollar_first_iff.mp hfirst
    have hlt := hdollar dollar hd
    have hgt := hbefore quote hquote
    omega
  unfold temporal_string_place
  dsimp only
  rw [hfirst, if_neg Bool.false_ne_true, hquote]
  cases hlast : rposition is_quote text <;> simp

theorem place_cases {text : List Char} {start stop : Nat}
    (h : temporal_string_place text = some (start, stop)) :
    (∃ len, text.findIdx? is_dollar = some start ∧
        (∀ quote, text.findIdx? is_quote = some quote → start < quote) ∧
        dollar_quoted_token_len (text.drop start) = some len ∧ stop = start + len) ∨
      ∃ quote last, text.findIdx? is_quote = some quote ∧
        (∀ dollar, text.findIdx? is_dollar = some dollar → quote < dollar) ∧
        rposition is_quote text = some last ∧ stop = last + 1 ∧
        start = if ends_in_escape_marker (text.take quote) then quote - 1 else quote := by
  by_cases hfirst :
      dollar_first (text.findIdx? is_quote) (text.findIdx? is_dollar) = true
  · obtain ⟨dollar, hdollar, hquote⟩ := dollar_first_iff.mp hfirst
    rw [place_of_dollar hdollar hquote] at h
    obtain ⟨len, hlen, hplace⟩ := Option.map_eq_some_iff.mp h
    obtain ⟨rfl, rfl⟩ := Prod.mk.inj hplace
    exact .inl ⟨len, hdollar, hquote, hlen, rfl⟩
  · have hnone := h
    unfold temporal_string_place at hnone
    dsimp only at hnone
    rw [if_neg hfirst] at hnone
    obtain ⟨quote, hquote, -⟩ := Option.bind_eq_some_iff.mp hnone
    have hdollar : ∀ dollar, text.findIdx? is_dollar = some dollar → quote < dollar := by
      intro dollar hdollar
      have hnot : ¬ dollar < quote := by
        intro hlt
        refine hfirst (dollar_first_iff.mpr ⟨dollar, hdollar, fun q hq => ?_⟩)
        rw [hquote] at hq
        cases hq
        exact hlt
      have hne : quote ≠ dollar := by
        rintro rfl
        obtain ⟨_, hq, _⟩ := List.findIdx?_eq_some_iff_getElem.mp hquote
        obtain ⟨_, hd, _⟩ := List.findIdx?_eq_some_iff_getElem.mp hdollar
        rw [is_quote_iff.mp hq] at hd
        revert hd
        decide
      omega
    rw [place_of_quote hquote hdollar] at h
    obtain ⟨last, hlast, hplace⟩ := Option.map_eq_some_iff.mp h
    obtain ⟨rfl, rfl⟩ := Prod.mk.inj hplace
    exact .inr ⟨quote, last, hquote, hdollar, hlast, rfl, rfl⟩

theorem not_of_findIdx? {p : Char → Bool} {front behind : List Char}
    (h : ∀ n, (front ++ behind).findIdx? p = some n → front.length ≤ n) :
    ∀ x ∈ front, p x = false := by
  cases hfound : (front ++ behind).findIdx? p with
  | none =>
    intro x hx
    have hnone := List.findIdx?_eq_none_iff.mp hfound x (List.mem_append_left _ hx)
    simpa using hnone
  | some n => exact forall_not_of_findIdx? hfound (h n hfound)

theorem findable_of_place {before value after : List Char} (hvalue : value ≠ [])
    (h : temporal_string_place (before ++ (value ++ after)) =
      some (before.length, before.length + value.length)) : Findable before value after := by
  obtain ⟨len, hdollar, hquote, hlen, hstop⟩ |
    ⟨quote, last, hquote, hdollar, hlast, hstop, hstart⟩ := place_cases h
  · -- a dollar-quoted string
    obtain ⟨hdollars, -⟩ := behind_of_findIdx? hdollar
    have hquotes := not_of_findIdx? fun n hn => Nat.le_of_lt (hquote n hn)
    rw [List.drop_left] at hlen
    obtain rfl : len = value.length := by omega
    exact .dollar (fun c hc => ⟨hquotes c hc, hdollars c hc⟩)
      ((dollar_quoted_token_len_append_iff after).mp hlen)
  · -- the value string ends where the last quote does
    have hends : value.getLast? = some single_quote ∧ ∀ c ∈ after, is_quote c = false := by
      obtain ⟨front, c, rfl⟩ : ∃ front c, value = front ++ [c] :=
        ⟨_, _, (List.dropLast_append_getLast hvalue).symm⟩
      have hsplit : before ++ (front ++ [c] ++ after) = (before ++ front) ++ c :: after := by simp
      have hplace : last = (before ++ front).length := by
        simp only [List.length_append, List.length_singleton] at hstop ⊢
        omega
      rw [hsplit, hplace] at hlast
      obtain ⟨hc, hafter⟩ := rposition_eq_some_iff.mp hlast
      exact ⟨by simp [is_quote_iff.mp hc], hafter⟩
    by_cases hmarker : ends_in_escape_marker ((before ++ (value ++ after)).take quote) = true
    · -- the marker in front of the quote is the first character of the value string
      rw [if_pos hmarker] at hstart
      have hquotes := not_of_findIdx? fun n hn => by
        rw [hquote] at hn
        cases hn
        omega
      have hdollars := not_of_findIdx? fun n hn => by
        have hlt := hdollar n hn
        omega
      have hnonempty : quote ≠ 0 := by
        rintro rfl
        simp [ends_in_escape_marker] at hmarker
      obtain rfl : quote = before.length + 1 := by omega
      obtain _ | ⟨marker, value⟩ := value
      · exact absurd rfl hvalue
      · have htake : (before ++ (marker :: value ++ after)).take (before.length + 1) =
            before ++ [marker] := by
          rw [List.take_append, Nat.add_sub_cancel_left]
          simp
        rw [htake, ends_in_escape_marker_append, Bool.and_eq_true, Bool.not_eq_true'] at hmarker
        have hsplit : before ++ (marker :: value ++ after) =
            (before ++ [marker]) ++ (value ++ after) := by simp
        have hplace : before.length + 1 = (before ++ [marker]).length := by simp
        rw [hsplit, hplace] at hquote
        obtain ⟨hnone, c, rest, hbehind, hc⟩ := behind_of_findIdx? hquote
        cases value with
        | nil =>
          have hmark := hnone marker (by simp)
          have hlast := hends.1
          simp only [List.getLast?_singleton, Option.some.injEq] at hlast
          rw [hlast] at hmark
          exact absurd hmark (by decide)
        | cons second value =>
          obtain ⟨rfl, -⟩ := List.cons.inj hbehind
          exact .escape (fun c hc => ⟨hquotes c hc, hdollars c hc⟩) hmarker.2
            (by simpa using hmarker.1) (congrArg some (is_quote_iff.mp hc)) hends.1 hends.2
    · rw [if_neg hmarker] at hstart
      subst hstart
      obtain ⟨hquotes, c, rest, hbehind, hc⟩ := behind_of_findIdx? hquote
      have hdollars := not_of_findIdx? fun n hn => Nat.le_of_lt (hdollar n hn)
      rw [List.take_left] at hmarker
      refine .quoted (fun c hc => ⟨hquotes c hc, hdollars c hc⟩)
        (Bool.eq_false_of_not_eq_true hmarker) ?_ hends.1 hends.2
      cases value with
      | nil => exact absurd rfl hvalue
      | cons first value =>
        obtain ⟨rfl, -⟩ := List.cons.inj hbehind
        exact congrArg some (is_quote_iff.mp hc)

theorem lt_of_findIdx? {p : Char → Bool} {front behind : List Char} {c : Char} {n : Nat}
    (hfront : ∀ x ∈ front, p x = false) (hc : p c = false)
    (h : (front ++ c :: behind).findIdx? p = some n) : front.length < n := by
  obtain ⟨hlt, hn, _⟩ := List.findIdx?_eq_some_iff_getElem.mp h
  by_contra hle
  obtain hin | rfl : n < front.length ∨ n = front.length := by omega
  · rw [List.getElem_append_left hin] at hn
    rw [hfront _ (List.getElem_mem hin)] at hn
    cases hn
  · rw [List.getElem_append_right (Nat.le_refl _)] at hn
    simp [hc] at hn

/-- The last quote of the text is the last character of the value string. -/
theorem rposition_of_last (before : List Char) {value after : List Char}
    (hlast : value.getLast? = some single_quote) (hafter : ∀ c ∈ after, is_quote c = false) :
    ∃ last, rposition is_quote (before ++ (value ++ after)) = some last ∧
      last + 1 = before.length + value.length := by
  obtain ⟨front, rfl⟩ := List.getLast?_eq_some_iff.mp hlast
  have hsplit : before ++ (front ++ [single_quote] ++ after) =
      (before ++ front) ++ single_quote :: after := by simp
  rw [hsplit]
  refine ⟨_, rposition_eq_some_iff.mpr ⟨rfl, hafter⟩, ?_⟩
  simp only [List.length_append, List.length_singleton]
  omega

theorem place_of_findable {before value after : List Char}
    (h : Findable before value after) :
    temporal_string_place (before ++ (value ++ after)) =
      some (before.length, before.length + value.length) := by
  cases h with
  | quoted hbefore hmarker hfirst hlast hafter =>
    obtain ⟨last, hrposition, hstop⟩ := rposition_of_last before hlast hafter
    obtain ⟨rest, rfl⟩ := List.head?_eq_some_iff.mp hfirst
    have hquote := findIdx?_of_behind (rest ++ after) (fun c hc => (hbefore c hc).1)
      (show is_quote single_quote = true from rfl)
    have hdollar (n : Nat) := @lt_of_findIdx? _ _ (rest ++ after) _ n
      (fun c hc => (hbefore c hc).2) (show is_dollar single_quote = false from rfl)
    rw [List.cons_append] at hrposition ⊢
    rw [place_of_quote hquote hdollar, hrposition, List.take_left, hmarker]
    simp only [Option.map_some, Bool.false_eq_true, if_false, hstop]
  | escape hbefore halone hmarker hquote hlast hafter =>
    obtain ⟨last, hrposition, hstop⟩ := rposition_of_last before hlast hafter
    obtain _ | ⟨marker, _ | ⟨second, rest⟩⟩ := value
    · cases hquote
    · cases hquote
    · obtain rfl : second = single_quote := Option.some.inj hquote
      have hmark : is_escape_marker marker = true := by simpa using hmarker
      have hneither : is_quote marker = false ∧ is_dollar marker = false := by
        simp only [is_escape_marker, Bool.or_eq_true, beq_iff_eq] at hmark
        obtain rfl | rfl := hmark <;> decide
      have hfront : ∀ c ∈ before ++ [marker], is_quote c = false ∧ is_dollar c = false := by
        intro c hc
        obtain hc | hc := List.mem_append.mp hc
        · exact hbefore c hc
        · rw [List.mem_singleton.mp hc]
          exact hneither
      have hsplit : before ++ (marker :: single_quote :: rest ++ after) =
          (before ++ [marker]) ++ single_quote :: (rest ++ after) := by simp
      have hfound := findIdx?_of_behind (rest ++ after) (fun c hc => (hfront c hc).1)
        (show is_quote single_quote = true from rfl)
      have hdollar (n : Nat) := @lt_of_findIdx? _ _ (rest ++ after) _ n
        (fun c hc => (hfront c hc).2) (show is_dollar single_quote = false from rfl)
      rw [hsplit] at hrposition ⊢
      rw [place_of_quote hfound hdollar, hrposition, List.take_left, ends_in_escape_marker_append,
        hmark, halone]
      simp only [Option.map_some, Bool.not_false, Bool.and_self, if_true, hstop, List.length_append,
        List.length_singleton, Nat.add_sub_cancel]
  | dollar hbefore hvalue =>
    have hopen : value.head? = some '$' := by
      obtain ⟨n, hopen, -⟩ := Option.bind_eq_some_iff.mp hvalue
      unfold dollar_open_delim_len at hopen
      split at hopen <;> first | rfl | cases hopen
    obtain ⟨rest, rfl⟩ := List.head?_eq_some_iff.mp hopen
    have hfound := findIdx?_of_behind (rest ++ after) (fun c hc => (hbefore c hc).2)
      (show is_dollar '$' = true from rfl)
    have hquote (n : Nat) := @lt_of_findIdx? _ _ (rest ++ after) _ n
      (fun c hc => (hbefore c hc).1) (show is_quote '$' = false from rfl)
    have hlen := (dollar_quoted_token_len_append_iff after).mpr hvalue
    rw [List.cons_append] at hlen ⊢
    rw [place_of_dollar hfound hquote, List.drop_left, hlen]
    rfl

/-- The search finds the value string, at its place, exactly where it is findable. -/
theorem temporal_string_place_iff {before value after : List Char} (hvalue : value ≠ []) :
    temporal_string_place (before ++ (value ++ after)) =
        some (before.length, before.length + value.length) ↔
      Findable before value after :=
  ⟨findable_of_place hvalue, place_of_findable⟩

theorem temporal_string_token_of_findable {before value after : List Char}
    (h : Findable before value after) :
    temporal_string_token (before ++ (value ++ after)) = some value := by
  unfold temporal_string_token
  rw [place_of_findable h]
  simp

end squonk.ast.literal
