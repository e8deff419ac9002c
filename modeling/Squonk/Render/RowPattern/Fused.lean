import Squonk.Render.RowPattern

/-!
# Row patterns that read back

A pattern is read back from its text, but where any run of operator characters is one operator and
a start anchor stands in front of `*` or `+`.
-/

open squonk.ast squonk.dialect squonk.tokenizer squonk.parser squonk.parser.row_pattern

namespace squonk.render.row_pattern

section
variable {features : FeatureSet} (hquotes : features.identifier_quotes ⊆ name_quotes)
include hquotes

/-! ## Anchors that fuse -/

omit hquotes in
/-- Tokens next to each other stand in one of two lists, or where these meet. -/
theorem RepeatsAnchor.of_append {ts us : List Token} (h : RepeatsAnchor (ts ++ us)) :
    RepeatsAnchor ts ∨ RepeatsAnchor us ∨ (ts.getLast? = some (.operator .Caret) ∧
      ∃ op, (op = .Star ∨ op = .Plus) ∧ us.head? = some (.operator op)) := by
  obtain ⟨op, hop, hinfix⟩ := h
  rw [List.infix_append_iff_ne_nil] at hinfix
  obtain hleft | hright | ⟨l, r, hl, hr, hsplit, hsuffix, hprefix⟩ := hinfix
  · exact .inl ⟨op, hop, hleft⟩
  · exact .inr (.inl ⟨op, hop, hright⟩)
  · obtain ⟨rfl, rfl⟩ : l = [.operator .Caret] ∧ r = [.operator op] := by
      obtain ⟨c, l, rfl⟩ := List.exists_cons_of_ne_nil hl
      obtain ⟨d, r, rfl⟩ := List.exists_cons_of_ne_nil hr
      cases l with
      | nil =>
        obtain ⟨rfl, hright⟩ := List.cons.inj hsplit
        exact ⟨rfl, hright.symm⟩
      | cons e l =>
        have hlength := congrArg List.length hsplit
        simp at hlength
    obtain ⟨front, rfl⟩ := hsuffix
    obtain ⟨back, rfl⟩ := hprefix
    exact .inr (.inr ⟨List.getLast?_concat, op, hop, rfl⟩)

omit hquotes in
theorem RepeatsAnchor.of_cons {t : Token} {ts : List Token} (h : RepeatsAnchor (t :: ts))
    (ht : t ≠ .operator .Caret) : RepeatsAnchor ts := by
  obtain hone | hrest | ⟨hlast, -⟩ := RepeatsAnchor.of_append (show RepeatsAnchor ([t] ++ ts) from h)
  · obtain ⟨op, -, hinfix⟩ := hone
    have hlength := hinfix.length_le
    simp at hlength
  · exact hrest
  · exact absurd (Option.some.inj hlast) ht

omit hquotes in
theorem RepeatsAnchor.of_snoc {t : Token} {ts : List Token} (h : RepeatsAnchor (ts ++ [t]))
    (ht : ∀ op, (op = .Star ∨ op = .Plus) → t ≠ .operator op) : RepeatsAnchor ts := by
  obtain hrest | hone | ⟨-, op, hop, hhead⟩ := h.of_append
  · exact hrest
  · obtain ⟨op, -, hinfix⟩ := hone
    have hlength := hinfix.length_le
    simp at hlength
  · exact absurd (Option.some.inj hhead) (ht op hop)

omit hquotes in
theorem not_quantifier_head {n : Nat} {rank : Rank} {ts : List Token}
    {ps : List MatchRecognizePattern} (h : Reads features n rank ts ps) {op : Operator}
    (hop : op = .Star ∨ op = .Plus) : ts.head? ≠ some (.operator op) := by
  intro hhead
  have hopens := (h.opens []).quantifies
  rw [List.append_nil] at hopens
  cases ts with
  | nil => cases hhead
  | cons t ts =>
    obtain rfl := Option.some.inj hhead
    obtain rfl | rfl := hop
    all_goals cases hopens

/-- A text with an operator of its own making among its tokens, whatever stands behind it. -/
def Fuses (features : FeatureSet) (w : List Char) : Prop :=
  ∀ rest us, tokenize features (w ++ rest) = some us → ∃ v, .operator (.Custom v) ∈ us

omit hquotes in
theorem Fuses.append {w : List Char} (h : Fuses features w) (v : List Char) :
    Fuses features (w ++ v) := by
  intro rest us hus
  rw [List.append_assoc] at hus
  exact h _ us hus

omit hquotes in
theorem Fuses.behind {w v : List Char} (h : Fuses features v) {m : List Token}
    (hw : ∀ rest, tokenize features (w ++ (v ++ rest)) =
      (tokenize features (v ++ rest)).map (m ++ ·)) : Fuses features (w ++ v) := by
  intro rest us hus
  rw [List.append_assoc, hw, Option.map_eq_some_iff] at hus
  obtain ⟨vs, hvs, rfl⟩ := hus
  obtain ⟨x, hx⟩ := h rest vs hvs
  exact ⟨x, List.mem_append_right _ hx⟩

/-- An anchor and the quantifier on it are one operator. -/
theorem fuses_anchor (hcustom : features.operator_syntax.custom_operators = true) {d : Char}
    (hd : d = '*' ∨ d = '+') : Fuses features ['^', d] := by
  intro rest us hus
  have hscan : ∃ w behind, scan_operator features '^' (d :: rest) =
      some (.operator (.Custom w), behind) := by
    obtain rfl | rfl := hd
    all_goals exact scan_custom_run hcustom rfl rfl (.inl rfl) (by decide) (by decide)
  have hminus : (d :: rest).head? ≠ some '-' := by
    obtain rfl | rfl := hd
    all_goals simp
  obtain ⟨w, behind, hscan⟩ := hscan
  change tokenize features ('^' :: d :: rest) = some us at hus
  rw [tokenize_operator_of_scan hquotes (o := .Caret) (by decide) hminus hscan,
    Option.map_eq_some_iff] at hus
  obtain ⟨vs, -, rfl⟩ := hus
  exact ⟨w, .head _⟩

omit hquotes in
/-- The tokens of a quantifier have no anchor among them. -/
theorem not_repeatsAnchor_of_quantified {us : List Token} {quantifier : RepetitionQuantifier}
    (h : Quantified us quantifier) : ¬ RepeatsAnchor us := by
  rintro ⟨op, -, hinfix⟩
  have hmem : .operator .Caret ∈ us := hinfix.subset (.head _)
  cases h with
  | star => simp at hmem
  | plus => simp at hmem
  | bound h =>
    cases h
    all_goals simp at hmem

omit hquotes in
theorem start_of_getLast {n : Nat} {ts : List Token} {p : MatchRecognizePattern}
    (h : Reads features n .primary ts [p]) (hlast : ts.getLast? = some (.operator .Caret)) :
    p = .Start := by
  cases h with
  | symbol h _ =>
    have ht := Option.some.inj hlast
    rw [List.getLast_singleton] at ht
    rw [ht] at h
    cases h
  | start => rfl
  | group h =>
    rw [← List.cons_append, List.getLast?_concat] at hlast
    cases hlast
  | @exclude n ts p h =>
    have hsplit : .punctuation .LBrace :: .operator .Minus ::
        (ts ++ [.operator .Minus, .punctuation .RBrace]) =
          (.punctuation .LBrace :: .operator .Minus :: ts ++ [.operator .Minus]) ++
            [.punctuation .RBrace] := by simp
    rw [hsplit, List.getLast?_concat] at hlast
    cases hlast
  | permute ht h =>
    rw [← List.cons_append, ← List.cons_append, List.getLast?_concat] at hlast
    cases hlast

/-- A part in front of the parts that go with it has an anchor repeated in one of the two. -/
theorem fuses_list {n : Nat} {rank r : Rank} {ts : List Token} {p : MatchRecognizePattern}
    {ps : List MatchRecognizePattern} (h : Reads features n rank ts [p])
    (hscanned : ∀ t ∈ ts, Scanned features t)
    (hleft : RepeatsAnchor ts → Fuses features (pattern_text p))
    (hright : Fuses features (patterns_text (separator r) ps) ∨ RepeatsAnchor ts)
    (hps : ps ≠ []) (mark : List Token)
    (hmark : ∀ cs, tokenize features (separator r ++ cs) =
      (tokenize features cs).map (mark ++ ·))
    (hhead : ∀ cs c, (separator r ++ cs).head? = some c → c ∈ [' ', ')', ',']) :
    Fuses features (patterns_text (separator r) (p :: ps)) := by
  rw [patterns_text_cons hps]
  by_cases hrepeats : RepeatsAnchor ts
  · exact (hleft hrepeats).append _
  · obtain ⟨vs, -, htokens⟩ := rereads_of_reads hquotes h hscanned (fun _ => hrepeats)
    rw [patterns_text_single] at htokens
    have hrest : Fuses features (separator r ++ patterns_text (separator r) ps) :=
      (hright.resolve_right hrepeats).behind (fun rest => hmark _)
    apply hrest.behind (m := vs)
    intro rest
    apply htokens
    apply Follows.of_closed
    rw [List.append_assoc]
    exact hhead _

/-- Where any run of operator characters is one operator, the text of a pattern with an anchor
repeated has an operator that no pattern has. -/
theorem fuses_of_reads (hcustom : features.operator_syntax.custom_operators = true) {n : Nat}
    {rank : Rank} {ts : List Token} {ps : List MatchRecognizePattern}
    (h : Reads features n rank ts ps) (hscanned : ∀ t ∈ ts, Scanned features t)
    (hrepeats : RepeatsAnchor ts) : Fuses features (patterns_text (separator rank) ps) := by
  induction h with
  | symbol h _ =>
    obtain ⟨op, -, hinfix⟩ := hrepeats
    have hlength := hinfix.length_le
    simp at hlength
  | start =>
    obtain ⟨op, -, hinfix⟩ := hrepeats
    have hlength := hinfix.length_le
    simp at hlength
  | @group n ts p h ih =>
    have hinner : RepeatsAnchor ts := (hrepeats.of_cons Token.noConfusion).of_snoc (by simp)
    have hfuses := ih (fun t ht => hscanned t (by simp [ht])) hinner
    rw [patterns_text_single] at hfuses
    rw [patterns_text_single, pattern_text, ← List.singleton_append]
    apply (hfuses.append [')']).behind (m := [.lparen])
    exact fun rest => tokenize_punctuation hquotes (by decide) _
  | @exclude n ts p h ih =>
    have hsplit : ts ++ [.operator .Minus, .punctuation .RBrace] =
        ts ++ [.operator .Minus] ++ [.punctuation .RBrace] := by simp
    have hinner : RepeatsAnchor ts := by
      have hbehind := (hrepeats.of_cons Token.noConfusion).of_cons (by simp)
      rw [hsplit] at hbehind
      exact (hbehind.of_snoc (by simp)).of_snoc (by simp)
    have hfuses := ih (fun t ht => hscanned t (by simp [ht])) hinner
    rw [patterns_text_single] at hfuses
    rw [patterns_text_single, pattern_text]
    apply (hfuses.append [' ', '-', '}']).behind (m := [.punctuation .LBrace, .operator .Minus])
    intro rest
    change tokenize features ('{' :: '-' :: ' ' :: (pattern_text p ++ [' ', '-', '}'] ++ rest)) = _
    have hblank : ∀ d, (' ' :: (pattern_text p ++ [' ', '-', '}'] ++ rest)).head? = some d →
        d ∈ closers := by
      intro d hd
      rw [← Option.some.inj hd]
      decide
    rw [tokenize_punctuation hquotes (t := .punctuation .LBrace) (by decide),
      tokenize_operator_closed hquotes (o := .Minus) (by decide) hblank, tokenize_blank,
      Option.map_map]
    rfl
  | @permute n t ts ps ht h ih =>
    have hword : t ≠ .operator .Caret := by
      rintro rfl
      cases ht
    have hinner : RepeatsAnchor ts :=
      ((hrepeats.of_cons hword).of_cons Token.noConfusion).of_snoc (by simp)
    have hfuses := ih (fun t ht => hscanned t (by simp [ht])) hinner
    rw [patterns_text_single, pattern_text]
    have hclose : Fuses features ('(' :: (patterns_text [',', ' '] ps ++ [')'])) := by
      apply (hfuses.append [')']).behind (w := ['(']) (m := [.lparen])
      exact fun rest => tokenize_punctuation hquotes (by decide) _
    apply hclose.behind (m := [.word permute_text])
    exact fun rest => tokenize_permute hquotes _
  | bare h ih => exact ih hscanned hrepeats
  | @repetition n ts us p quantifier h hquantifier ih =>
    rw [patterns_text_single, pattern_text]
    obtain hleft | hright | ⟨hlast, op, hop, hhead⟩ := hrepeats.of_append
    · have hfuses := ih (fun t ht => hscanned t (List.mem_append_left _ ht)) hleft
      rw [patterns_text_single] at hfuses
      exact hfuses.append _
    · exact absurd hright (not_repeatsAnchor_of_quantified hquantifier)
    · obtain rfl := start_of_getLast h hlast
      rw [pattern_text, List.singleton_append]
      cases hquantifier with
      | star => exact fuses_anchor hquotes hcustom (.inl rfl)
      | plus => exact fuses_anchor hquotes hcustom (.inr rfl)
      | bound hbound => cases hhead
  | last_factor h ih => exact ih hscanned hrepeats
  | @factor n ts us p ps h hrest ih ih' =>
    have hrest' : RepeatsAnchor us ∨ RepeatsAnchor ts := by
      obtain hleft | hright | ⟨-, op, hop, hhead⟩ := hrepeats.of_append
      · exact .inr hleft
      · exact .inl hright
      · exact absurd hhead (not_quantifier_head hrest hop)
    have hscanned' : ∀ t ∈ ts, Scanned features t := fun t ht => hscanned t (by simp [ht])
    have hfuses := fuses_list hquotes (r := .factors) h hscanned'
      (fun hleft => patterns_text_single _ p ▸ ih hscanned' hleft)
      (hrest'.imp_left (ih' fun t ht => hscanned t (by simp [ht]))) (reads_ne_nil hrest)
      [] tokenize_blank_mark (separator_head (by decide))
    exact hfuses
  | single h ih => exact ih hscanned hrepeats
  | @concat n ts us p ps h hrest ih ih' =>
    have hrest' : RepeatsAnchor us ∨ RepeatsAnchor ts := by
      obtain hleft | hright | ⟨-, op, hop, hhead⟩ := hrepeats.of_append
      · exact .inr hleft
      · exact .inl hright
      · exact absurd hhead (not_quantifier_head hrest hop)
    have hscanned' : ∀ t ∈ ts, Scanned features t := fun t ht => hscanned t (by simp [ht])
    have hfuses := fuses_list hquotes (r := .factors) h hscanned'
      (fun hleft => patterns_text_single _ p ▸ ih hscanned' hleft)
      (hrest'.imp_left (ih' fun t ht => hscanned t (by simp [ht]))) (reads_ne_nil hrest)
      [] tokenize_blank_mark (separator_head (by decide))
    rw [patterns_text_single, pattern_text]
    exact hfuses
  | last_sequence h ih => exact ih hscanned hrepeats
  | @sequence n ts us p ps h hrest ih ih' =>
    have hrest' : RepeatsAnchor us ∨ RepeatsAnchor ts := by
      obtain hleft | hright | ⟨-, op, hop, hhead⟩ := hrepeats.of_append
      · exact .inr hleft
      · exact .inl (hright.of_cons (by simp))
      · obtain rfl | rfl := hop
        all_goals cases hhead
    have hscanned' : ∀ t ∈ ts, Scanned features t := fun t ht => hscanned t (by simp [ht])
    have hfuses := fuses_list hquotes (r := .sequences) h hscanned'
      (fun hleft => patterns_text_single _ p ▸ ih hscanned' hleft)
      (hrest'.imp_left (ih' fun t ht => hscanned t (by simp [ht]))) (reads_ne_nil hrest)
      [.operator .Pipe] (tokenize_bar hquotes) (separator_head (by decide))
    exact hfuses
  | unbranched h ih => exact ih hscanned hrepeats
  | @alternation n ts us p ps h hrest ih ih' =>
    have hrest' : RepeatsAnchor us ∨ RepeatsAnchor ts := by
      obtain hleft | hright | ⟨-, op, hop, hhead⟩ := hrepeats.of_append
      · exact .inr hleft
      · exact .inl (hright.of_cons (by simp))
      · obtain rfl | rfl := hop
        all_goals cases hhead
    have hscanned' : ∀ t ∈ ts, Scanned features t := fun t ht => hscanned t (by simp [ht])
    have hfuses := fuses_list hquotes (r := .sequences) h hscanned'
      (fun hleft => patterns_text_single _ p ▸ ih hscanned' hleft)
      (hrest'.imp_left (ih' fun t ht => hscanned t (by simp [ht]))) (reads_ne_nil hrest)
      [.operator .Pipe] (tokenize_bar hquotes) (separator_head (by decide))
    rw [patterns_text_single, pattern_text]
    exact hfuses
  | last_member h ih => exact ih hscanned hrepeats
  | @member n ts us p ps h hrest ih ih' =>
    have hrest' : RepeatsAnchor us ∨ RepeatsAnchor ts := by
      obtain hleft | hright | ⟨-, op, hop, hhead⟩ := hrepeats.of_append
      · exact .inr hleft
      · exact .inl (hright.of_cons Token.noConfusion)
      · cases hhead
    have hscanned' : ∀ t ∈ ts, Scanned features t := fun t ht => hscanned t (by simp [ht])
    have hfuses := fuses_list hquotes (r := .members) h hscanned'
      (fun hleft => patterns_text_single _ p ▸ ih hscanned' hleft)
      (hrest'.imp_left (ih' fun t ht => hscanned t (by simp [ht]))) (reads_ne_nil hrest)
      [.comma]
      (tokenize_comma hquotes) (separator_head (by decide))
    exact hfuses

end

/-! ## The round trip -/

section
variable {features : FeatureSet}

/-- Among the tokens of a pattern is no operator that no dialect knows. -/
theorem not_custom_of_reads {n : Nat} {rank : Rank} {ts : List Token}
    {ps : List MatchRecognizePattern} (h : Reads features n rank ts ps) (w : List Char) :
    .operator (.Custom w) ∉ ts := by
  have hname : ∀ {t : Token} {symbol : Ident},
      parser.expr.column_name features t = some symbol → t ≠ .operator (.Custom w) := by
    rintro t symbol ht rfl
    cases ht
  induction h with
  | symbol h _ => simpa using (hname h).symm
  | start => simp
  | group _ ih => simpa using ih
  | exclude _ ih => simpa using ih
  | @permute n t ts ps ht _ ih =>
    have hword : t ≠ .operator (.Custom w) := by
      rintro rfl
      cases ht
    simpa using ⟨hword.symm, ih⟩
  | repetition _ hquantifier ih =>
    cases hquantifier with
    | star => simpa using ih
    | plus => simpa using ih
    | bound hbound =>
      cases hbound
      all_goals simpa using ih
  | factor _ _ ih ih' => simpa using ⟨ih, ih'⟩
  | concat _ _ ih ih' => simpa using ⟨ih, ih'⟩
  | sequence _ _ ih ih' => simpa using ⟨ih, ih'⟩
  | alternation _ _ ih ih' => simpa using ⟨ih, ih'⟩
  | member _ _ ih ih' => simpa using ⟨ih, ih'⟩
  | bare _ ih => exact ih
  | last_factor _ ih => exact ih
  | single _ ih => exact ih
  | last_sequence _ ih => exact ih
  | unbranched _ ih => exact ih
  | last_member _ ih => exact ih

/-- More levels read the same. -/
theorem Reads.succ {n : Nat} {rank : Rank} {ts : List Token} {ps : List MatchRecognizePattern}
    (h : Reads features n rank ts ps) : Reads features (n + 1) rank ts ps := by
  induction h with
  | symbol h hpermute => exact .symbol h hpermute
  | start => exact .start
  | group _ ih => exact .group ih
  | exclude _ ih => exact .exclude ih
  | permute ht _ ih => exact .permute ht ih
  | bare _ ih => exact .bare ih
  | repetition _ hquantifier ih => exact .repetition ih hquantifier
  | last_factor _ ih => exact .last_factor ih
  | factor _ _ ih ih' => exact .factor ih ih'
  | single _ ih => exact .single ih
  | concat _ _ ih ih' => exact .concat ih ih'
  | last_sequence _ ih => exact .last_sequence ih
  | sequence _ _ ih ih' => exact .sequence ih ih'
  | unbranched _ ih => exact .unbranched ih
  | alternation _ _ ih ih' => exact .alternation ih ih'
  | last_member _ ih => exact .last_member ih
  | member _ _ ih ih' => exact .member ih ih'

theorem reads_mono {n m : Nat} (hle : n ≤ m) {rank : Rank} {ts : List Token}
    {ps : List MatchRecognizePattern} (h : Reads features n rank ts ps) :
    Reads features m rank ts ps := by
  induction hle with
  | refl => exact h
  | step _ ih => exact Reads.succ ih

/-- The grammar gives tokens one tree. -/
theorem reads_unique {n m : Nat} {ts : List Token} {p q : MatchRecognizePattern}
    (h : Reads features n .alternatives ts [p]) (h' : Reads features m .alternatives ts [q]) :
    p = q := by
  let s : State :=
    { tokens := [], angle_gt_pending := 0, paren_query_grouping := false,
      grouped_query_complete := false }
  have hs : Closes s.tokens := ⟨rfl, fun hhead => nomatch hhead⟩
  have hp := (reads_mono (Nat.le_max_left n m) h).parse_row_pattern hs
  have hq := (reads_mono (Nat.le_max_right n m) h').parse_row_pattern hs
  rw [hp] at hq
  exact (EStateM.Result.ok.inj hq).1

/-- The tree is the one that the grammar gives the tokens: quantifiers bind tighter than sequences,
and sequences tighter than alternatives. It is no deeper than the levels there are. -/
def GroupedAs (features : FeatureSet) (level : Nat) (ts : List Token)
    (p : MatchRecognizePattern) : Prop :=
  (∃ n, level = n + 1 ∧ Reads features n .alternatives ts [p]) ∧
    ∀ n q, Reads features n .alternatives ts [q] → q = p

/-- The pattern in its parentheses is read back, with as many levels and whatever is behind it. -/
def ReadsBack (features : FeatureSet) (level : Nat) (p : MatchRecognizePattern) : Prop :=
  ∀ rest more, tokenize features rest = some more →
    ∃ ts, tokenize features (pattern_text p ++ ')' :: rest) = some ts ∧
      ∀ s : State, parse_row_pattern features level { s with tokens := ts } =
        .ok p { s with tokens := .rparen :: more }

/-- A pattern of some source groups as the grammar says, and it is read back from its text unless
any run of operator characters is one operator and a quantifier stands on a start anchor. -/
theorem row_pattern_reads_back_iff (hquotes : features.identifier_quotes ⊆ name_quotes)
    {source : List Char} {tokens ts : List Token} (hsource : tokenize features source = some tokens)
    (hts : ts <:+: tokens) {level : Nat} {p : MatchRecognizePattern} {t : State}
    (h : parse_row_pattern features level (behind ts t) = .ok p t) :
    GroupedAs features level ts p ∧ ReadsBack features level p ↔
      ¬ (features.operator_syntax.custom_operators = true ∧ RepeatsAnchor ts) := by
  have hscanned : ∀ t ∈ ts, Scanned features t :=
    fun t ht => scanned_of_tokenize hsource t (hts.subset ht)
  obtain ⟨n, us, rfl, hs, hreads⟩ := parse_row_pattern_reads h
  obtain rfl : ts = us := by
    have htokens : ts ++ t.tokens = us ++ t.tokens := congrArg State.tokens hs
    exact List.append_cancel_right htokens
  constructor
  · rintro ⟨_, hback⟩ ⟨hcustom, hrepeats⟩
    -- the text alone in its parentheses has an operator that no pattern has
    obtain ⟨vs, hvs, hparse⟩ := hback [] [] rfl
    have hfuses := fuses_of_reads hquotes hcustom hreads hscanned hrepeats
    rw [patterns_text_single] at hfuses
    obtain ⟨w, hw⟩ := hfuses _ vs hvs
    obtain ⟨m, xs, -, hxs, hread⟩ := parse_row_pattern_reads (hparse t)
    obtain rfl : vs = xs ++ [.rparen] := congrArg State.tokens hxs
    rw [List.mem_append, List.mem_singleton] at hw
    obtain hw | hw := hw
    · exact not_custom_of_reads hread w hw
    · cases hw
  · intro hcondition
    refine ⟨⟨⟨n, rfl, hreads⟩, fun m q hq => reads_unique hq hreads⟩, ?_⟩
    intro rest more hmore
    have hunfused : features.operator_syntax.custom_operators = true → ¬ RepeatsAnchor ts :=
      fun hcustom hrepeats => hcondition ⟨hcustom, hrepeats⟩
    obtain ⟨us, hus, htokens⟩ := rereads_of_reads hquotes hreads hscanned hunfused
    have hclose : Follows features .alternatives [p] (')' :: rest) := Follows.cons (by decide) _
    have htext := htokens _ hclose
    rw [patterns_text_single, tokenize_punctuation hquotes (t := .rparen) (by decide), hmore]
      at htext
    refine ⟨us ++ .rparen :: more, htext, fun s => ?_⟩
    exact hus.parse_row_pattern (t := { s with tokens := .rparen :: more })
      ⟨rfl, fun hhead => nomatch hhead⟩

end

/-- In the operators of Snowflake, a quantified anchor is read back. -/
theorem row_pattern_reads_back_anchored :
    GroupedAs .SNOWFLAKE 1 [.operator .Caret, .operator .Star]
        (.Repetition .Start .ZeroOrMore) ∧
      ReadsBack .SNOWFLAKE 1 (.Repetition .Start .ZeroOrMore) := by
  have hsource : tokenize .SNOWFLAKE "^ *".toList = some [.operator .Caret, .operator .Star] := rfl
  have hparse : parse_row_pattern .SNOWFLAKE 1
      (behind [.operator .Caret, .operator .Star] ⟨[], 0, false, false⟩) =
        .ok (.Repetition .Start .ZeroOrMore) ⟨[], 0, false, false⟩ := rfl
  apply (row_pattern_reads_back_iff (by decide) hsource (List.infix_refl _) hparse).mpr
  rintro ⟨hcustom, -⟩
  cases hcustom

/-- Snowflake where any run of operator characters is one operator. -/
def munching : FeatureSet :=
  { FeatureSet.SNOWFLAKE with
    operator_syntax := { FeatureSet.SNOWFLAKE.operator_syntax with custom_operators := true } }

/-- `^ *` is a pattern there, and its text `^*` is an operator that no dialect knows. -/
theorem row_pattern_not_read_back :
    tokenize munching "^ *".toList = some [.operator .Caret, .operator .Star] ∧
      parse_row_pattern munching 1
          (behind [.operator .Caret, .operator .Star] ⟨[.rparen], 0, false, false⟩) =
        .ok (.Repetition .Start .ZeroOrMore) ⟨[.rparen], 0, false, false⟩ ∧
      pattern_text (.Repetition .Start .ZeroOrMore) = "^*".toList ∧
      tokenize munching "^*".toList = some [.operator (.Custom "^*".toList)] ∧
      ¬ ReadsBack munching 1 (.Repetition .Start .ZeroOrMore) := by
  refine ⟨rfl, rfl, rfl, rfl, ?_⟩
  intro hback
  obtain ⟨ts, hts, hparse⟩ := hback [] [] rfl
  have htokens : tokenize munching (pattern_text (.Repetition .Start .ZeroOrMore) ++ [')']) =
      some [.operator (.Custom "^*".toList), .rparen] := rfl
  rw [htokens] at hts
  obtain rfl := Option.some.inj hts
  have hthrow := hparse ⟨[], 0, false, false⟩
  cases hthrow

end squonk.render.row_pattern
