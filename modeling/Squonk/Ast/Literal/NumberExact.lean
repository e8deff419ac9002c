import Squonk.Ast.Literal.NumberSplit

/-!
# Values of numbers are exact

When the accessors give the value that the text of a number denotes: always when a separator is
misplaced, and otherwise when the sign stands at the number, is not the sign of an amount of money,
and a number behind a marker is neither the least integer of 64 bits nor as large as `2 ^ 127`.
-/

open squonk.document squonk.tokenizer

namespace squonk.ast.literal

/-! ## What the accessors give -/

def FitsI64 (v : Int) : Prop := -2 ^ 63 ≤ v ∧ v < 2 ^ 63

/-- The accessors give the value of the number, wherever it stands, and refuse it if and only if its
    separators are misplaced or the value is too large. -/
structure Exact (n : NumberText) (front back : List Char) (flag : Bool) : Prop where
  as_i64 : (n.literal_at front flag).kind = .Integer → ∀ v,
    (n.literal_at front flag).as_i64 (n.source front back) = .ok v ↔
      n.body.WellPlaced ∧ n.value = v ∧ FitsI64 v
  as_decimal_text : (n.literal_at front flag).kind ∈ [.Integer, .Float, .Decimal] →
    ((∃ text, (n.literal_at front flag).as_decimal_text (n.source front back) = .ok text) ↔
      n.body.WellPlaced) ∧
    ∀ text, (n.literal_at front flag).as_decimal_text (n.source front back) = .ok text →
      Denotes text.text n.value
  as_money_text : (n.literal_at front flag).kind = .Money →
    ∃ text, (n.literal_at front flag).as_money_text (n.source front back) = .ok text ∧
      Denotes text.text n.value

/-- The sign is read where it stands, and the number behind a marker has room. -/
def NumberText.Readable (n : NumberText) : Prop :=
  n.gap = [] ∧
    match n.body with
    | .Decimal _ _ => True
    | .Radix integer => n.value ≠ -2 ^ 63 ∧ integer.value < 2 ^ 127
    | .Money _ _ => n.folded = none

variable {n : NumberText} {front back : List Char} {flag : Bool}

theorem as_i64_iff (hkind : number_literal_kind n.text flag = .Integer) (v : Int) :
    (n.literal_at front flag).as_i64 (n.source front back) = .ok v ↔
      materialize_i64 n.text = some v := by
  have hkind' : (n.literal_at front flag).kind = .Integer := hkind
  unfold Literal.as_i64
  rw [n.source_text_literal_at, hkind']
  simp only [Literal.expect_kind, beq_self_eq_true, if_true, bind, Except.bind]
  cases materialize_i64 n.text <;> simp [pure, Except.pure]

theorem as_decimal_text_iff
    (hkind : (n.literal_at front flag).kind ∈ [LiteralKind.Integer, .Float, .Decimal])
    (text : Cow) :
    (n.literal_at front flag).as_decimal_text (n.source front back) = .ok text ↔
      materialize_decimal_text n.text = some text := by
  have haccepts : ((n.literal_at front flag).kind == .Integer ||
      (n.literal_at front flag).kind == .Float ||
      (n.literal_at front flag).kind == .Decimal) = true := by
    simpa [or_assoc] using hkind
  unfold Literal.as_decimal_text
  rw [n.source_text_literal_at, haccepts]
  simp only [Literal.expect_kind, if_true, bind, Except.bind]
  cases materialize_decimal_text n.text <;> simp [pure, Except.pure]

theorem as_money_text_iff (hkind : number_literal_kind n.text flag = .Money) (text : Cow) :
    (n.literal_at front flag).as_money_text (n.source front back) = .ok text ↔
      ∃ body, money_body n.text = some body ∧ text = .Borrowed body := by
  have hkind' : (n.literal_at front flag).kind = .Money := hkind
  unfold Literal.as_money_text
  rw [n.source_text_literal_at, hkind']
  simp only [Literal.expect_kind, beq_self_eq_true, if_true, bind, Except.bind]
  cases money_body n.text <;> simp [pure, Except.pure, eq_comm]

theorem mem_kinds (hkind : number_literal_kind n.text flag ≠ .Money) :
    (n.literal_at front flag).kind ∈ [LiteralKind.Integer, .Float, .Decimal] := by
  show number_literal_kind n.text flag ∈ [LiteralKind.Integer, .Float, .Decimal]
  rw [number_literal_kind_eq] at hkind ⊢
  split
  · rename_i hmoney
    exact absurd (if_pos hmoney) hkind
  · split
    · decide
    · split
      · cases flag <;> decide
      · decide

/-! ## Misplaced separators -/

/-- Behind whatever is in front of the number, a misplaced separator of it is misplaced. -/
theorem wellPlaced_of_placed (gap : List Char)
    (h : SeparatorsPlaced 10 (gap ++ n.body.text)) : n.body.WellPlaced := by
  cases hbody : n.body with
  | Decimal mantissa exponent =>
    intro front back heq
    rw [hbody] at h
    obtain ⟨c, rest, hhead, hc⟩ := NumberBody.decimal_head mantissa exponent
    have hplaced := h (gap ++ front) back (by rw [heq, List.append_assoc])
    cases front with
    | nil =>
      rw [hhead] at heq
      obtain rfl : c = '_' := (List.cons.inj heq).1
      exact absurd hc (by decide)
    | cons d front => simpa [List.getLast?_append] using hplaced
  | Radix integer =>
    intro front back heq
    have htext : n.body.text = '0' :: integer.marker :: (front ++ '_' :: back) := by
      rw [hbody, ← heq]
      rfl
    obtain ⟨⟨c, hlast, hc⟩, d, hfirst, hd⟩ :=
      h (gap ++ '0' :: integer.marker :: front) back (by rw [htext]; simp)
    refine ⟨?_, d, hfirst, ?_⟩
    · cases hfront : front.getLast? with
      | none =>
        obtain rfl : c = integer.marker := by
          simpa [List.getLast?_append, List.getLast?_cons, hfront, eq_comm] using hlast
        have hmarker := integer.marker_not_digit
        rw [isDigit_of_radix_digit hc] at hmarker
        cases hmarker
      | some c' =>
        obtain rfl : c = c' := by
          simpa [List.getLast?_append, List.getLast?_cons, hfront, eq_comm] using hlast
        refine ⟨c, rfl, radix_digit_of_isDigit integer.run ?_ hc⟩
        rw [heq]
        exact List.mem_append_left _ (List.mem_of_getLast? hfront)
    · refine radix_digit_of_isDigit integer.run ?_ hd
      rw [heq]
      exact List.mem_append_right _ (.tail _ (List.mem_of_head? hfirst))
  | Money amount plain =>
    refine SeparatorsPlaced.of_plain ?_
    simpa [NumberBody.text] using plain

theorem strip_misplaced (h : ¬ n.body.WellPlaced) :
    strip_digit_separators ( split_radix_prefix (n.gap ++ n.body.text)).2
      ( split_radix_prefix (n.gap ++ n.body.text)).1 = none := by
  by_cases hgap : n.gap = []
  · cases hbody : n.body with
    | Decimal mantissa exponent =>
      rw [hgap, List.nil_append, split_radix_prefix_decimal]
      rw [hbody] at h
      exact strip_digit_separators_eq_none h
    | Radix integer =>
      rw [hgap, List.nil_append]
      show strip_digit_separators ( split_radix_prefix integer.text).2
        ( split_radix_prefix integer.text).1 = none
      rw [split_radix_prefix_radix]
      rw [hbody] at h
      exact strip_digit_separators_eq_none h
    | Money amount plain =>
      refine absurd (wellPlaced_of_placed [] (.of_plain ?_)) h
      simpa [hbody, NumberBody.text] using plain
  · rw [NumberText.split_radix_prefix_gap hgap]
    exact strip_digit_separators_eq_none fun hplaced => h (wellPlaced_of_placed _ hplaced)

theorem exact_of_misplaced (h : ¬ n.body.WellPlaced) : Exact n front back flag := by
  have hi64 : materialize_i64 n.text = none := by
    simp [materialize_i64, NumberText.split_sign_text, strip_misplaced h]
  have hdecimal : materialize_decimal_text n.text = none := by
    simp [materialize_decimal_text, NumberText.split_sign_text, strip_misplaced h]
  constructor
  · intro hkind v
    rw [as_i64_iff hkind, hi64]
    simp [h]
  · intro hkind
    simp only [as_decimal_text_iff hkind, hdecimal]
    simp [h]
  · intro hkind
    obtain ⟨-, amount, plain, hbody⟩ := NumberText.kind_money_iff.mp hkind
    refine absurd (wellPlaced_of_placed [] (.of_plain ?_)) h
    simpa [hbody, NumberBody.text] using plain

/-! ## Decimal numbers -/

/-- The decimal text of a number without a marker is its text without separators. -/
theorem materialize_decimal_text_base
    (hbase : split_radix_prefix (n.gap ++ n.body.text) = (10, n.gap ++ n.body.text))
    (hplaced : SeparatorsPlaced 10 (n.gap ++ n.body.text)) :
    ∃ text, materialize_decimal_text n.text = some text ∧
      text.text = n.sign ++ without_separators (n.gap ++ n.body.text) := by
  unfold materialize_decimal_text
  rw [n.split_sign_text]
  dsimp only
  rw [hbase]
  dsimp only
  obtain ⟨hplain, hstrip⟩ | hstrip := strip_digit_separators_of_placed hplaced
  · rw [hstrip, without_separators_eq hplain]
    exact ⟨.Borrowed n.text, rfl, rfl⟩
  · rw [hstrip]
    exact ⟨.Owned _, rfl, rfl⟩

/-- The integer of a number without a marker is read from its text without separators. -/
theorem materialize_i64_base
    (hbase : split_radix_prefix (n.gap ++ n.body.text) = (10, n.gap ++ n.body.text))
    (hplaced : SeparatorsPlaced 10 (n.gap ++ n.body.text)) :
    materialize_i64 n.text = parse_i64 (n.sign ++ without_separators (n.gap ++ n.body.text)) := by
  unfold materialize_i64
  rw [n.split_sign_text]
  dsimp only
  rw [hbase]
  dsimp only
  obtain ⟨hplain, hstrip⟩ | hstrip := strip_digit_separators_of_placed hplaced
  · rw [hstrip, without_separators_eq hplain]
    rfl
  · rw [hstrip]
    rfl

theorem parse_i64_iff {digits : List Char} (hne : digits ≠ [])
    (hdigits : digits.all (is_radix_digit · 10) = true) (v : Int) :
    parse_i64 (n.sign ++ digits) = some v ↔
      n.factor * digits_value 10 digits = v ∧ FitsI64 v := by
  unfold parse_i64 NumberText.sign NumberText.factor FitsI64
  cases n.folded with
  | some folded =>
    rw [eq_comm (b := v)]
    exact from_str_radix_signed folded.sign hne hdigits v
  | none =>
    show from_str_radix 64 10 digits = some v ↔ 1 * (digits_value 10 digits : Int) = v ∧ _
    rw [from_str_radix_digits hne hdigits]
    split <;> grind

theorem exact_decimal {mantissa : FixedPoint} {exponent : Option Exponent}
    (hplaced : n.body.WellPlaced) (hgap : n.gap = [])
    (hbody : n.body = .Decimal mantissa exponent) : Exact n front back flag := by
  have hbase : split_radix_prefix (n.gap ++ n.body.text) = (10, n.gap ++ n.body.text) := by
    rw [hgap, List.nil_append, hbody, split_radix_prefix_decimal]
  have hseparators : SeparatorsPlaced 10 (n.gap ++ n.body.text) := by
    rw [hgap, List.nil_append, hbody]
    rwa [hbody] at hplaced
  constructor
  · intro hkind v
    obtain ⟨hfraction, rfl⟩ := NumberText.kind_decimal_integer hgap hbody hkind
    have htext : n.gap ++ n.body.text = mantissa.whole := by
      simp [hgap, hbody, NumberBody.text, FixedPoint.text, hfraction]
    have hdigit : HasDigit 10 mantissa.whole := by simpa [hfraction] using mantissa.digit
    have hvalue : n.value = (n.factor * run_value 10 mantissa.whole : Int) := by
      simp [NumberText.value, hbody, NumberBody.value, FixedPoint.value, FixedPoint.digits,
        FixedPoint.places, hfraction, without_separators]
    rw [as_i64_iff hkind, materialize_i64_base hbase hseparators, htext,
      parse_i64_iff hdigit.ne_nil mantissa.whole_run.all_digits, hvalue, Int.cast_inj]
    exact (and_iff_right hplaced).symm
  · intro hkind
    obtain ⟨text, htext, hshape⟩ := materialize_decimal_text_base hbase hseparators
    simp only [as_decimal_text_iff hkind, htext, Option.some.injEq]
    refine ⟨iff_of_true ⟨text, rfl⟩ hplaced, ?_⟩
    rintro _ rfl
    rw [hshape, hgap, List.nil_append]
    exact denotes_stripped hgap hbody
  · intro hkind
    obtain ⟨-, amount, plain, hmoney⟩ := NumberText.kind_money_iff.mp hkind
    rw [hbody] at hmoney
    cases hmoney

/-! ## A sign apart from its number -/

/-- The text of a decimal number goes on behind a sign with a digit or a point. -/
theorem Denotes.behind_sign {sign : Sign} {c : Char} {rest : List Char} {value : ℚ}
    (h : Denotes (sign.char :: c :: rest) value) : c.isDigit = true ∨ c = '.' := by
  obtain ⟨n, hgap, ⟨mantissa, exponent, hbody⟩, -, htext, -⟩ := h
  obtain ⟨d, rest', hhead, hd⟩ := NumberBody.decimal_head mantissa exponent
  have hsplit := n.split_sign_text
  rw [htext, split_sign_cons, hgap, hbody, List.nil_append, hhead] at hsplit
  obtain ⟨rfl, -⟩ := List.cons.inj (Prod.mk.inj hsplit).2
  exact hd

theorem not_exact_of_gap (hplaced : n.body.WellPlaced) (hgap : n.gap ≠ []) :
    ¬ Exact n front back flag := by
  intro h
  have hkind : number_literal_kind n.text flag ≠ .Money := fun hmoney =>
    hgap (NumberText.kind_money_iff.mp hmoney).1
  obtain ⟨hsucceeds, hdenotes⟩ := h.as_decimal_text (mem_kinds hkind)
  obtain ⟨text, htext⟩ := hsucceeds.mpr hplaced
  have hvalue := hdenotes text htext
  rw [as_decimal_text_iff (mem_kinds hkind)] at htext
  obtain ⟨c, gap, hcons⟩ := List.exists_cons_of_ne_nil hgap
  have hc := NumberText.gap_apart (n := n) (c := c) (by rw [hcons]; rfl)
  have hsign : ∃ sign : Sign, n.sign = [sign.char] := by
    unfold NumberText.sign
    unfold NumberText.gap at hgap
    cases hfolded : n.folded with
    | none => simp [hfolded] at hgap
    | some folded => exact ⟨folded.sign, rfl⟩
  obtain ⟨sign, hsign⟩ := hsign
  have hbehind : ∃ rest, text.text = sign.char :: c :: rest := by
    have hbase := NumberText.split_radix_prefix_gap hgap
    have hseparators : SeparatorsPlaced 10 (n.gap ++ n.body.text) := by
      by_contra hmisplaced
      simp [materialize_decimal_text, n.split_sign_text, hbase,
        strip_digit_separators_eq_none hmisplaced] at htext
    obtain ⟨text', htext', hshape⟩ := materialize_decimal_text_base hbase hseparators
    obtain rfl := Option.some.inj (htext.symm.trans htext')
    refine ⟨without_separators (gap ++ n.body.text), ?_⟩
    rw [hshape, hsign, hcons]
    simp [without_separators, hc.2.2.1]
  obtain ⟨rest, hrest⟩ := hbehind
  rw [hrest] at hvalue
  obtain hdigit | rfl := hvalue.behind_sign
  · rw [hc.1] at hdigit
    cases hdigit
  · exact hc.2.1 rfl

/-! ## Numbers behind a marker -/

section Radix

variable {integer : RadixInteger}

/-- The digits of a natural number as a decimal number. -/
def FixedPoint.of_nat (value : Nat) : FixedPoint where
  whole := Nat.toDigits 10 value
  fraction := none
  whole_run := fun _ hc => .inl (Nat.isDigit_of_mem_toDigits (by decide) le_rfl hc)
  fraction_run := fun _ hrun => nomatch hrun
  digit := by
    obtain ⟨c, rest, heq⟩ := List.exists_cons_of_ne_nil (Nat.toDigits_ne_nil (n := value) (b := 10))
    have hc : c ∈ Nat.toDigits 10 value := by simp [heq]
    exact ⟨c, by simp [hc], Nat.isDigit_of_mem_toDigits (by decide) le_rfl hc⟩
  leads := fun hhead => Nat.underscore_not_in_toDigits (List.mem_of_head? hhead)

theorem FixedPoint.of_nat_text (value : Nat) : (of_nat value).text = Nat.toDigits 10 value :=
  List.append_nil _

theorem FixedPoint.of_nat_value (value : Nat) : (of_nat value).value = value := by
  have hdigits : run_value 10 (of_nat value).digits = value := by
    show digits_value 10 (without_separators (Nat.toDigits 10 value ++ [])) = value
    rw [List.append_nil, without_separators_eq Nat.underscore_not_in_toDigits,
      digits_value_toDigits]
  have hplaces : (of_nat value).places = 0 := rfl
  simp [FixedPoint.value, hdigits, hplaces]

/-- The decimal text of an integer denotes it. -/
theorem denotes_toString (v : Int) : Denotes (toString v).toList v := by
  rw [Int.toString_eq_repr, Int.repr_eq_if]
  split
  · rename_i hv
    refine ⟨⟨none, .Decimal (.of_nat v.toNat) none⟩, rfl, ⟨_, _, rfl⟩, ?_, ?_, ?_⟩
    · simp [NumberText.text, NumberText.sign, NumberText.gap, NumberBody.text,
        FixedPoint.of_nat_text]
    · simp [NumberText.text, NumberText.sign, NumberText.gap, NumberBody.text,
        FixedPoint.of_nat_text]
    · have htoNat : (v.toNat : ℚ) = v := by
        exact_mod_cast congrArg (Int.cast (R := ℚ)) (Int.toNat_of_nonneg hv)
      simp [NumberText.value, NumberText.factor, NumberBody.value, FixedPoint.of_nat_value, htoNat]
  · rename_i hv
    refine ⟨⟨some ⟨.Minus, [], by simp⟩, .Decimal (.of_nat (-v).toNat) none⟩, rfl, ⟨_, _, rfl⟩,
      ?_, ?_, ?_⟩
    · simp [NumberText.text, NumberText.sign, NumberText.gap, NumberBody.text,
        FixedPoint.of_nat_text, Sign.char]
    · simp [NumberText.text, NumberText.sign, NumberText.gap, NumberBody.text,
        FixedPoint.of_nat_text, Sign.char]
    · have htoNat : ((-v).toNat : ℚ) = -v := by
        exact_mod_cast congrArg (Int.cast (R := ℚ)) (Int.toNat_of_nonneg (by omega : 0 ≤ -v))
      simp [NumberText.value, NumberText.factor, NumberBody.value, FixedPoint.of_nat_value, htoNat,
        Sign.factor]

theorem factor_cases (n : NumberText) :
    n.sign = [] ∧ n.factor = 1 ∨ n.sign = ['+'] ∧ n.factor = 1 ∨ n.sign = ['-'] ∧ n.factor = -1 := by
  unfold NumberText.sign NumberText.factor
  cases n.folded with
  | none => exact .inl ⟨rfl, rfl⟩
  | some folded =>
    cases hsign : folded.sign
    · exact .inr (.inl (by simp [hsign, Sign.char, Sign.factor]))
    · exact .inr (.inr (by simp [hsign, Sign.char, Sign.factor]))

theorem value_radix (hbody : n.body = .Radix integer) :
    n.value = (n.factor * integer.value : Int) := by
  simp [NumberText.value, hbody, NumberBody.value]

/-- The digits behind a marker are read with a width where their number has room. -/
theorem radix_digits (hplaced : n.body.WellPlaced) (hbody : n.body = .Radix integer) :
    ∃ digits, strip_digit_separators integer.digits integer.base = some digits ∧
      ∀ width, from_str_radix width integer.base digits.text =
        if integer.value < 2 ^ (width - 1) then some (integer.value : Int) else none := by
  rw [hbody] at hplaced
  obtain ⟨digits, hstrip, htext⟩ := strip_digit_separators_text hplaced
  refine ⟨digits, hstrip, fun width => ?_⟩
  rw [htext]
  exact from_str_radix_digits integer.digit.ne_nil integer.run.all_digits

theorem split_radix (hgap : n.gap = []) (hbody : n.body = .Radix integer) :
    split_radix_prefix (n.gap ++ n.body.text) = (integer.base, integer.digits) := by
  rw [hgap, hbody]
  exact split_radix_prefix_radix integer

theorem base_ne_ten (integer : RadixInteger) : (integer.base == 10) = false := by
  simpa [RadixInteger.base] using radix_base_ne_ten integer.radix

/-- A magnitude is read as an integer of 64 bits, and its sign is put on it afterwards. -/
theorem materialize_i64_radix (hplaced : n.body.WellPlaced) (hgap : n.gap = [])
    (hbody : n.body = .Radix integer) (v : Int) :
    materialize_i64 n.text = some v ↔ n.factor * integer.value = v ∧ integer.value < 2 ^ 63 := by
  obtain ⟨digits, hstrip, hread⟩ := radix_digits hplaced hbody
  unfold materialize_i64
  rw [n.split_sign_text]
  dsimp only
  rw [split_radix hgap hbody]
  dsimp only
  simp only [hstrip, base_ne_ten, hread, Option.bind_eq_bind, Option.bind_some,
    Bool.false_eq_true, if_false]
  obtain ⟨hsign, hfactor⟩ | ⟨hsign, hfactor⟩ | ⟨hsign, hfactor⟩ := factor_cases n
  all_goals
    rw [hsign, hfactor]
    unfold checked_neg
    split <;> grind

/-- The value behind a marker is written with decimal digits. -/
theorem materialize_decimal_text_radix (hplaced : n.body.WellPlaced) (hgap : n.gap = [])
    (hbody : n.body = .Radix integer) :
    materialize_decimal_text n.text =
      if integer.value < 2 ^ 127 then
        some (.Owned (toString (n.factor * integer.value : Int)).toList)
      else none := by
  obtain ⟨digits, hstrip, hread⟩ := radix_digits hplaced hbody
  unfold materialize_decimal_text
  rw [n.split_sign_text]
  dsimp only
  rw [split_radix hgap hbody]
  dsimp only
  simp only [hstrip, base_ne_ten, hread, Option.bind_eq_bind, Option.bind_some,
    Bool.false_eq_true, if_false]
  split
  · obtain ⟨hsign, hfactor⟩ | ⟨hsign, hfactor⟩ | ⟨hsign, hfactor⟩ := factor_cases n <;>
      simp [hsign, hfactor]
  · rfl

theorem exact_radix_iff (hplaced : n.body.WellPlaced) (hgap : n.gap = [])
    (hbody : n.body = .Radix integer) :
    Exact n front back flag ↔ n.value ≠ -2 ^ 63 ∧ integer.value < 2 ^ 127 := by
  have hkind : number_literal_kind n.text flag = .Integer := NumberText.kind_radix hgap hbody
  have hkinds : (n.literal_at front flag).kind ∈ [LiteralKind.Integer, .Float, .Decimal] :=
    mem_kinds (by rw [hkind]; nofun)
  have hi64 (v : Int) := materialize_i64_radix hplaced hgap hbody v
  have hdecimal := materialize_decimal_text_radix hplaced hgap hbody
  have hvalue := value_radix hbody
  have hfactor : n.factor = 1 ∨ n.factor = -1 := by
    obtain ⟨-, h⟩ | ⟨-, h⟩ | ⟨-, h⟩ := factor_cases n <;> simp [h]
  constructor
  · intro h
    constructor
    · intro hleast
      have hread := (h.as_i64 hkind (-2 ^ 63)).mpr ⟨hplaced, by rw [hleast]; norm_num, by
        unfold FitsI64; norm_num⟩
      rw [as_i64_iff hkind, hi64] at hread
      obtain h | h := hfactor <;> rw [h] at hread <;> omega
    · obtain ⟨text, htext⟩ := (h.as_decimal_text hkinds).1.mpr hplaced
      rw [as_decimal_text_iff hkinds, hdecimal] at htext
      by_contra hlarge
      rw [if_neg hlarge] at htext
      cases htext
  · rintro ⟨hleast, hsmall⟩
    constructor
    · intro _ v
      have hrange : n.factor * (integer.value : Int) ≠ -2 ^ 63 := by
        intro heq
        refine hleast ?_
        rw [hvalue, heq]
        norm_num
      rw [as_i64_iff hkind, hi64, hvalue, Int.cast_inj, and_iff_right hplaced]
      unfold FitsI64
      obtain h | h := hfactor <;> rw [h] at hrange ⊢ <;> omega
    · intro _
      rw [if_pos hsmall] at hdecimal
      simp only [as_decimal_text_iff hkinds, hdecimal, Option.some.injEq]
      refine ⟨iff_of_true ⟨_, rfl⟩ hplaced, ?_⟩
      rintro _ rfl
      rw [hvalue]
      exact denotes_toString _
    · intro hmoney
      rw [show (n.literal_at front flag).kind = .Integer from hkind] at hmoney
      cases hmoney

end Radix

/-! ## Amounts of money -/

theorem exact_money_iff {amount : FixedPoint} {plain : '_' ∉ amount.text} (hgap : n.gap = [])
    (hbody : n.body = .Money amount plain) : Exact n front back flag ↔ n.folded = none := by
  have hkind : number_literal_kind n.text flag = .Money :=
    NumberText.kind_money_iff.mpr ⟨hgap, amount, plain, hbody⟩
  have htext : n.text = n.sign ++ '$' :: amount.text := by
    simp [NumberText.text, hgap, hbody, NumberBody.text]
  constructor
  · intro h
    obtain ⟨text, hread, -⟩ := h.as_money_text hkind
    obtain ⟨body, hmoney, -⟩ := (as_money_text_iff hkind text).mp hread
    cases hfolded : n.folded with
    | none => rfl
    | some folded =>
      have hsign : n.sign = [folded.sign.char] := by simp [NumberText.sign, hfolded]
      rw [htext, hsign] at hmoney
      cases hchar : folded.sign <;> simp [hchar, Sign.char, money_body] at hmoney
  · intro hfolded
    have hunsigned : n.text = '$' :: amount.text := by simp [htext, NumberText.sign, hfolded]
    have hvalue : n.value = amount.value := by
      simp [NumberText.value, NumberText.factor, hfolded, hbody, NumberBody.value]
    constructor
    · intro h
      rw [show (n.literal_at front flag).kind = .Money from hkind] at h
      cases h
    · intro h
      rw [show (n.literal_at front flag).kind = .Money from hkind] at h
      simp at h
    · intro _
      refine ⟨.Borrowed amount.text, ?_, ?_⟩
      · rw [as_money_text_iff hkind, hunsigned]
        exact ⟨_, rfl, rfl⟩
      · refine ⟨⟨none, .Decimal amount none⟩, rfl, ⟨_, _, rfl⟩, ?_, ?_, ?_⟩
        · simpa [NumberText.text, NumberText.sign, NumberText.gap, NumberBody.text] using plain
        · simp [NumberText.text, NumberText.sign, NumberText.gap, NumberBody.text, Cow.text]
        · rw [hvalue]
          simp [NumberText.value, NumberText.factor, NumberBody.value]

/-! ## When they are exact -/

/-- The accessors are exact for a number if and only if one of its separators is misplaced or the
    sign is read where it stands and the number behind a marker has room. -/
theorem number_exact_iff (n : NumberText) (front back : List Char) (flag : Bool) :
    Exact n front back flag ↔ ¬ n.body.WellPlaced ∨ n.Readable := by
  by_cases hplaced : n.body.WellPlaced
  · rw [or_iff_right (not_not.mpr hplaced)]
    by_cases hgap : n.gap = []
    · unfold NumberText.Readable
      rw [and_iff_right hgap]
      cases hbody : n.body with
      | Decimal mantissa exponent => exact iff_of_true (exact_decimal hplaced hgap hbody) trivial
      | Radix integer => exact exact_radix_iff hplaced hgap hbody
      | Money amount plain => exact exact_money_iff hgap hbody
    · exact iff_of_false (not_exact_of_gap hplaced hgap) fun h => hgap h.1
  · exact iff_of_true (exact_of_misplaced hplaced) (.inl hplaced)

/-- The least integer of 64 bits behind a marker. -/
def least_i64 : NumberText where
  folded := some ⟨.Minus, [], nofun⟩
  body := .Radix ⟨.Hex, false, "8000000000000000".toList, fun c hc => by
    have hall : ("8000000000000000".toList.all fun c => is_radix_digit c 16) = true := by decide
    exact .inl (List.all_eq_true.mp hall c hc),
    '8', by decide, by decide⟩

theorem least_i64_not_exact :
    least_i64.text = "-0x8000000000000000".toList ∧
      (least_i64.literal_at [] false).kind = .Integer ∧ least_i64.body.WellPlaced ∧
      least_i64.value = ((-2 ^ 63 : Int) : ℚ) ∧ FitsI64 (-2 ^ 63) ∧
      (least_i64.literal_at [] false).as_i64 (least_i64.source [] []) =
        .error ⟨.InvalidInteger, ⟨0, 19⟩⟩ ∧
      ¬ Exact least_i64 [] [] false := by
  have hplaced : least_i64.body.WellPlaced := SeparatorsPlaced.of_plain (by decide)
  have hvalue : least_i64.value = ((-2 ^ 63 : Int) : ℚ) := by
    rw [value_radix rfl]
    exact congrArg Int.cast (by decide)
  refine ⟨by decide, by decide, hplaced, hvalue, by unfold FitsI64; decide, by decide, fun h => ?_⟩
  exact ((exact_radix_iff hplaced rfl rfl).mp h).1 (by rw [hvalue]; norm_num)

end squonk.ast.literal
