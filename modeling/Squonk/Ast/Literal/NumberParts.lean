import Squonk.Ast.Literal.NumberText

/-!
# The parts of numbers

Taking a number apart gives the parts that it was put together from: its sign, the base that its
digits are of, and its digits without separators where these are well placed.
-/

open squonk.tokenizer

namespace squonk.ast.literal

/-! ## Digits -/

theorem isDigit_of_radix_digit {c : Char} (h : is_radix_digit c 10 = true) : c.isDigit = true := h

theorem isAlphanum_of_radix_digit {c : Char} {base : Nat} (h : is_radix_digit c base = true) :
    c.isAlphanum = true := by
  unfold Char.isAlphanum Char.isAlpha Char.isUpper Char.isLower Char.isDigit
  unfold is_radix_digit at h
  split at h
  · simp only [Char.isDigit, Bool.or_eq_true, Bool.and_eq_true, decide_eq_true_eq, Char.le_def,
      ge_iff_le, UInt32.le_iff_toNat_le] at h ⊢
    simp only [Char.toNat_val, Char.reduceToNat] at h ⊢
    omega
  · simp only [Bool.or_eq_true, Bool.and_eq_true, decide_eq_true_eq, Char.le_def,
      ge_iff_le, UInt32.le_iff_toNat_le] at h ⊢
    simp only [Char.toNat_val, Char.reduceToNat] at h ⊢
    omega
  · obtain h | h := Bool.or_eq_true .. ▸ h
    · rw [eq_of_beq h]
      decide
    · rw [eq_of_beq h]
      decide
  · exact (Bool.or_eq_true ..).mpr (.inr h)

theorem radix_digit_ne {c d : Char} {base : Nat} (h : is_radix_digit c base = true)
    (hd : d.isAlphanum = false) : c ≠ d := by
  rintro rfl
  rw [isAlphanum_of_radix_digit h] at hd
  cases hd

theorem radix_digit_of_isDigit {c : Char} {base : Nat} {run : List Char} (hrun : IsRun base run)
    (hc : c ∈ run) (hdigit : c.isDigit = true) : is_radix_digit c base = true := by
  obtain h | rfl := hrun c hc
  · exact h
  · cases hdigit

/-- The decimal digits of a number are digits of it. -/
theorem digits_value_toDigits (value : Nat) : digits_value 10 (Nat.toDigits 10 value) = value := by
  have hfold (digits : List Char) (hdigits : ∀ c ∈ digits, c.isDigit = true) (start : Nat) :
      digits.foldl (fun value c => value * 10 + digit_value c) start =
        Nat.ofDigitChars 10 digits start := by
    induction digits generalizing start with
    | nil => rfl
    | cons c digits ih =>
      rw [List.foldl_cons, Nat.ofDigitChars_cons, ih fun c' hc' => hdigits c' (.tail _ hc')]
      have hvalue : digit_value c = c.toNat - '0'.toNat := if_pos (hdigits c (.head _))
      rw [hvalue, Nat.mul_comm]
  have hdigits : ∀ c ∈ Nat.toDigits 10 value, c.isDigit = true :=
    fun c hc => Nat.isDigit_of_mem_toDigits (by decide) le_rfl hc
  exact (hfold _ hdigits 0).trans Nat.ofDigitChars_ten_toDigits

/-! ## Separators -/

@[simp] theorem without_separators_append (run run' : List Char) :
    without_separators (run ++ run') = without_separators run ++ without_separators run' :=
  List.filter_append ..

theorem without_separators_eq {run : List Char} (h : '_' ∉ run) : without_separators run = run := by
  refine List.filter_eq_self.mpr fun c hc => ?_
  have hne : c ≠ '_' := fun heq => h (heq ▸ hc)
  simpa using hne

theorem not_mem_without_separators (run : List Char) : '_' ∉ without_separators run := by
  simp [without_separators]

theorem IsRun.all_digits {base : Nat} {run : List Char} (h : IsRun base run) :
    (without_separators run).all (is_radix_digit · base) = true := by
  refine List.all_eq_true.mpr fun c hc => ?_
  obtain ⟨hc, hne⟩ := List.mem_filter.mp hc
  exact (h c hc).resolve_right (by simpa using hne)

theorem HasDigit.ne_nil {base : Nat} {run : List Char} (h : HasDigit base run) :
    without_separators run ≠ [] := by
  obtain ⟨c, hc, hdigit⟩ := h
  have hne : c ≠ '_' := radix_digit_ne hdigit rfl
  exact List.ne_nil_of_mem (List.mem_filter.mpr ⟨hc, by simpa using hne⟩)

theorem SeparatorsPlaced.of_plain {base : Nat} {text : List Char} (h : '_' ∉ text) :
    SeparatorsPlaced base text := by
  rintro front back rfl
  simp at h

theorem separators_placed_iff {base : Nat} {text : List Char} (before : Option Char) :
    separators_placed base before text = true ↔
      ∀ front back, text = front ++ '_' :: back →
        (∃ c ∈ front.getLast?.or before, is_radix_digit c base = true) ∧
          ∃ c ∈ back.head?, is_radix_digit c base = true := by
  induction text generalizing before with
  | nil => simp [separators_placed]
  | cons c rest ih =>
    rw [separators_placed, Bool.and_eq_true, ih]
    constructor
    · rintro ⟨hc, hrest⟩ front back heq
      cases front with
      | nil =>
        obtain ⟨rfl, rfl⟩ : c = '_' ∧ rest = back := by simpa using heq
        simpa [Option.any_eq_true] using hc
      | cons d front =>
        obtain ⟨rfl, rfl⟩ : c = d ∧ rest = front ++ '_' :: back := by simpa using heq
        have hplaced := hrest front back rfl
        rw [List.getLast?_cons]
        cases hlast : front.getLast? <;> simpa [hlast] using hplaced
    · intro h
      refine ⟨?_, fun front back heq => ?_⟩
      · by_cases hc : c = '_'
        · subst hc
          have hplaced := h [] rest rfl
          simpa [Option.any_eq_true] using hplaced
        · simp [hc]
      · subst heq
        have hplaced := h (c :: front) back rfl
        rw [List.getLast?_cons] at hplaced
        cases hlast : front.getLast? <;> simpa [hlast] using hplaced

theorem separators_placed_none {base : Nat} {text : List Char} :
    separators_placed base none text = true ↔ SeparatorsPlaced base text := by
  simp only [separators_placed_iff, Option.or_none, SeparatorsPlaced]

/-- Separators that are well placed are taken out, and the text is borrowed if it has none. -/
theorem strip_digit_separators_of_placed {base : Nat} {body : List Char}
    (h : SeparatorsPlaced base body) :
    ('_' ∉ body ∧ strip_digit_separators body base = some (.Borrowed body)) ∨
      strip_digit_separators body base = some (.Owned (without_separators body)) := by
  unfold strip_digit_separators
  split
  · rename_i hplain
    exact .inl ⟨by simpa using hplain, rfl⟩
  · rw [if_pos (separators_placed_none.mpr h)]
    exact .inr rfl

theorem strip_digit_separators_text {base : Nat} {body : List Char}
    (h : SeparatorsPlaced base body) :
    ∃ digits, strip_digit_separators body base = some digits ∧
      digits.text = without_separators body := by
  obtain ⟨hplain, hstrip⟩ | hstrip := strip_digit_separators_of_placed h
  · exact ⟨_, hstrip, (without_separators_eq hplain).symm⟩
  · exact ⟨_, hstrip, rfl⟩

theorem strip_digit_separators_eq_none {base : Nat} {body : List Char}
    (h : ¬ SeparatorsPlaced base body) : strip_digit_separators body base = none := by
  have hsome : body.contains '_' = true := by
    by_contra hplain
    exact h (.of_plain (by simpa using hplain))
  have hplaced : ¬ separators_placed base none body = true := fun hplaced =>
    h (separators_placed_none.mp hplaced)
  simp only [strip_digit_separators, hsome, Bool.not_true, Bool.false_eq_true, if_false,
    if_neg hplaced]

/-! ## Numbers without separators -/

theorem IsRun.without_separators {base : Nat} {run : List Char} (h : IsRun base run) :
    IsRun base (without_separators run) :=
  fun c hc => h c (List.mem_of_mem_filter hc)

theorem HasDigit.without_separators {base : Nat} {run : List Char} (h : HasDigit base run) :
    HasDigit base (without_separators run) := by
  obtain ⟨c, hc, hdigit⟩ := h
  have hne : c ≠ '_' := radix_digit_ne hdigit rfl
  exact ⟨c, List.mem_filter.mpr ⟨hc, by simpa using hne⟩, hdigit⟩

@[simp] theorem without_separators_twice (run : List Char) :
    without_separators (without_separators run) = without_separators run :=
  without_separators_eq (not_mem_without_separators run)

def Exponent.stripped (self : Exponent) : Exponent where
  upper := self.upper
  sign := self.sign
  digits := without_separators self.digits
  run := self.run.without_separators
  digit := self.digit.without_separators

theorem Exponent.stripped_text (self : Exponent) :
    self.stripped.text = without_separators self.text := by
  unfold text marker stripped
  cases self.upper <;> cases self.sign with
  | none => rfl
  | some sign => cases sign <;> rfl

theorem Exponent.stripped_value (self : Exponent) : self.stripped.value = self.value := by
  simp [value, stripped, run_value]

def FixedPoint.stripped (self : FixedPoint) : FixedPoint where
  whole := without_separators self.whole
  fraction := self.fraction.map without_separators
  whole_run := self.whole_run.without_separators
  fraction_run := by
    intro run hrun
    obtain ⟨run', hrun', rfl⟩ := Option.mem_map.mp hrun
    exact (self.fraction_run run' hrun').without_separators
  digit := by
    have hdigit := self.digit.without_separators
    cases hfraction : self.fraction with
    | none => simpa [hfraction] using hdigit
    | some run => simpa [hfraction] using hdigit
  leads := fun hhead => not_mem_without_separators _ (List.mem_of_head? hhead)

namespace FixedPoint

variable (self : FixedPoint)

@[simp] theorem stripped_whole : self.stripped.whole = without_separators self.whole := rfl

@[simp] theorem stripped_fraction :
    self.stripped.fraction = self.fraction.map without_separators := rfl

theorem stripped_text : self.stripped.text = without_separators self.text := by
  unfold text
  rw [stripped_whole, stripped_fraction, without_separators_append]
  cases self.fraction <;> rfl

theorem stripped_value : self.stripped.value = self.value := by
  unfold value digits places run_value
  rw [stripped_whole, stripped_fraction]
  cases self.fraction <;> simp

end FixedPoint

/-- A decimal number at its sign denotes without its separators what it denotes with them. -/
theorem denotes_stripped {n : NumberText} {mantissa : FixedPoint} {exponent : Option Exponent}
    (hgap : n.gap = []) (hbody : n.body = .Decimal mantissa exponent) :
    Denotes (n.sign ++ without_separators n.body.text) n.value := by
  have htext : (NumberBody.Decimal mantissa.stripped (exponent.map Exponent.stripped)).text =
      without_separators n.body.text := by
    rw [hbody, NumberBody.text, NumberBody.text, without_separators_append, FixedPoint.stripped_text]
    cases exponent with
    | none => rfl
    | some exponent => exact congrArg _ exponent.stripped_text
  have hsign : '_' ∉ n.sign := by
    unfold NumberText.sign
    cases n.folded with
    | none => simp
    | some folded => cases hsign : folded.sign <;> simp [hsign, Sign.char]
  let n' : NumberText := ⟨n.folded, .Decimal mantissa.stripped (exponent.map Exponent.stripped)⟩
  have hgap' : n'.gap = [] := hgap
  have htext' : n'.text = n.sign ++ without_separators n.body.text := by
    show n.sign ++ (n'.gap ++ _) = _
    rw [hgap', htext, List.nil_append]
  refine ⟨n', hgap', ⟨_, _, rfl⟩, ?_, htext', ?_⟩
  · rw [htext', List.mem_append, not_or]
    exact ⟨hsign, not_mem_without_separators _⟩
  · unfold NumberText.value
    rw [hbody]
    show (n.factor : ℚ) * (mantissa.stripped.value * _) = _
    rw [FixedPoint.stripped_value]
    cases exponent with
    | none => rfl
    | some exponent =>
      show _ * (_ * (10 : ℚ) ^ exponent.stripped.value) = _
      rw [exponent.stripped_value]
      rfl

/-! ## Integers -/

/-- Digits read with a width are their number where it has room. -/
theorem from_str_radix_digits {width base : Nat} {digits : List Char} (hne : digits ≠ [])
    (hdigits : digits.all (is_radix_digit · base) = true) :
    from_str_radix width base digits =
      if digits_value base digits < 2 ^ (width - 1) then some (digits_value base digits : Int)
      else none := by
  obtain ⟨c, rest, rfl⟩ := List.exists_cons_of_ne_nil hne
  have hc : is_radix_digit c base = true := (List.all_eq_true.mp hdigits) c (.head _)
  have hminus : c ≠ '-' := radix_digit_ne hc rfl
  have hplus : c ≠ '+' := radix_digit_ne hc rfl
  have hneg : -2 ^ (width - 1) ≤ (digits_value base (c :: rest) : Int) := by
    have hpos : (0 : Int) ≤ 2 ^ (width - 1) := by positivity
    omega
  unfold from_str_radix
  split
  rename_i negative digits' heq
  have hsplit : (false, c :: rest) = (negative, digits') := by
    rw [← heq]
    split
    · rename_i heq'
      exact absurd (List.cons.inj heq').1 hminus
    · rename_i heq'
      exact absurd (List.cons.inj heq').1 hplus
    · rfl
  obtain ⟨rfl, rfl⟩ := Prod.mk.inj hsplit
  simp only [List.isEmpty_cons, hdigits, Bool.not_true, Bool.or_self, Bool.false_eq_true, if_false,
    hneg, true_and]
  norm_cast

/-- Digits behind a sign. -/
theorem from_str_radix_signed {width base : Nat} {digits : List Char} (sign : Sign)
    (hne : digits ≠ []) (hdigits : digits.all (is_radix_digit · base) = true) (v : Int) :
    from_str_radix width base (sign.char :: digits) = some v ↔
      v = sign.factor * digits_value base digits ∧ -2 ^ (width - 1) ≤ v ∧
        v < 2 ^ (width - 1) := by
  have hempty : digits.isEmpty = false := by simpa using hne
  cases sign with
  | Plus =>
    simp only [from_str_radix, Sign.char, Sign.factor, hempty, hdigits, Bool.not_true,
      Bool.or_self, Bool.false_eq_true, if_false, one_mul]
    grind
  | Minus =>
    simp only [from_str_radix, Sign.char, Sign.factor, hempty, hdigits, Bool.not_true,
      Bool.or_self, Bool.false_eq_true, if_false, if_true, neg_mul, one_mul]
    grind

end squonk.ast.literal
