import Squonk.Ast.Literal.NumberParts

/-!
# Numbers taken apart

The text of a number begins with its sign and then with the marker of its radix, so what is split
off it in that order is what the text was put together from.
-/

open squonk.document squonk.tokenizer

namespace squonk.ast.literal

/-! ## What a number begins with -/

namespace FixedPoint

variable (self : FixedPoint)

theorem chars {c : Char} (h : c ∈ self.text) : c.isDigit = true ∨ c = '_' ∨ c = '.' := by
  unfold text at h
  rw [List.mem_append] at h
  obtain h | h := h
  · obtain h | h := self.whole_run c h
    · exact .inl h
    · exact .inr (.inl h)
  · cases hfraction : self.fraction with
    | none => simp [hfraction] at h
    | some run =>
      rw [hfraction] at h
      obtain rfl | h := List.mem_cons.mp h
      · exact .inr (.inr rfl)
      · obtain h | h := self.fraction_run run hfraction c h
        · exact .inl h
        · exact .inr (.inl h)

theorem head : ∃ c rest, self.text = c :: rest ∧ (c.isDigit = true ∨ c = '.') := by
  unfold text
  cases hwhole : self.whole with
  | cons c rest =>
    refine ⟨c, _, rfl, ?_⟩
    have hleads := self.leads
    rw [hwhole] at hleads
    obtain h | rfl := self.whole_run c (by simp [hwhole])
    · exact .inl h
    · exact absurd rfl hleads
  | nil =>
    cases hfraction : self.fraction with
    | some run => exact ⟨'.', run, rfl, .inr rfl⟩
    | none =>
      obtain ⟨c, hc, -⟩ := self.digit
      simp [hwhole, hfraction] at hc

end FixedPoint

theorem Exponent.chars (self : Exponent) {c : Char} (h : c ∈ self.text) :
    c.isDigit = true ∨ c ∈ ['_', 'e', 'E', '+', '-'] := by
  obtain rfl | h := List.mem_cons.mp h
  · unfold marker
    cases self.upper <;> decide
  obtain h | h := List.mem_append.mp h
  · obtain ⟨sign, -, rfl⟩ := List.mem_map.mp h
    cases sign <;> decide
  · obtain h | rfl := self.run c h
    · exact .inl h
    · decide

namespace NumberBody

theorem decimal_chars {mantissa : FixedPoint} {exponent : Option Exponent} {c : Char}
    (h : c ∈ (Decimal mantissa exponent).text) :
    c.isDigit = true ∨ c ∈ ['_', '.', 'e', 'E', '+', '-'] := by
  obtain h | h := List.mem_append.mp h
  · obtain h | rfl | rfl := mantissa.chars h
    · exact .inl h
    · decide
    · decide
  · cases exponent with
    | none => cases h
    | some exponent =>
      refine (exponent.chars h).imp_right fun h => ?_
      simp only [List.mem_cons, List.not_mem_nil, or_false] at h ⊢
      tauto

theorem decimal_head (mantissa : FixedPoint) (exponent : Option Exponent) :
    ∃ c rest, (Decimal mantissa exponent).text = c :: rest ∧ (c.isDigit = true ∨ c = '.') := by
  obtain ⟨c, rest, heq, hc⟩ := mantissa.head
  refine ⟨c, rest ++ exponent.elim [] Exponent.text, ?_, hc⟩
  rw [text, heq, List.cons_append]

theorem head (body : NumberBody) :
    ∃ c rest, body.text = c :: rest ∧ (c.isDigit = true ∨ c = '.' ∨ c = '$') := by
  cases body with
  | Decimal mantissa exponent =>
    obtain ⟨c, rest, heq, hc⟩ := decimal_head mantissa exponent
    exact ⟨c, rest, heq, hc.imp_right .inl⟩
  | Radix integer => exact ⟨'0', _, rfl, .inl rfl⟩
  | Money amount plain => exact ⟨'$', _, rfl, .inr (.inr rfl)⟩

end NumberBody

/-! ## Splitting -/

theorem RadixInteger.marker_not_digit (self : RadixInteger) : self.marker.isDigit = false := by
  unfold marker
  cases self.radix <;> cases self.upper <;> rfl

theorem split_sign_cons (sign : Sign) (unsigned : List Char) :
    split_sign (sign.char :: unsigned) = ([sign.char], unsigned) := by
  cases sign <;> rfl

theorem split_sign_unsigned {c : Char} {rest : List Char} (hplus : c ≠ '+') (hminus : c ≠ '-') :
    split_sign (c :: rest) = ([], c :: rest) := by
  unfold split_sign
  split
  · exact absurd (List.cons.inj ‹_›).1 hplus
  · exact absurd (List.cons.inj ‹_›).1 hminus
  · rfl

namespace NumberText

variable (n : NumberText)

theorem split_sign_text : split_sign n.text = (n.sign, n.gap ++ n.body.text) := by
  unfold text sign gap
  cases n.folded with
  | some folded => exact split_sign_cons folded.sign _
  | none =>
    obtain ⟨c, rest, heq, hc⟩ := n.body.head
    show split_sign n.body.text = ([], n.body.text)
    rw [heq]
    refine split_sign_unsigned ?_ ?_
    · rintro rfl
      revert hc
      decide
    · rintro rfl
      revert hc
      decide

end NumberText

theorem split_radix_prefix_of_head {c : Char} {rest : List Char} (h : c ≠ '0') :
    split_radix_prefix (c :: rest) = (10, c :: rest) := by
  unfold split_radix_prefix
  split
  · exact absurd (List.cons.inj ‹_›).1 h
  · rfl

/-- The characters of a decimal number have no marker among them. -/
theorem split_radix_prefix_of_chars {text : List Char}
    (h : ∀ c ∈ text, c.isDigit = true ∨ c ∈ ['_', '.', 'e', 'E', '+', '-']) :
    split_radix_prefix text = (10, text) := by
  have hchars (c : Char) (hc : c ∈ text) : c ∉ ['x', 'X', 'o', 'O', 'b', 'B'] := by
    intro hmarker
    have hplain := h c hc
    simp only [List.mem_cons, List.not_mem_nil, or_false] at hmarker
    obtain rfl | rfl | rfl | rfl | rfl | rfl := hmarker <;> exact absurd hplain (by decide)
  unfold split_radix_prefix
  split
  · rename_i marker body
    have hmarker := hchars marker (by simp)
    simp only [List.mem_cons, List.not_mem_nil, or_false, not_or] at hmarker
    simp [hmarker]
  · rfl

/-- Behind no sign a decimal number has no marker. -/
theorem split_radix_prefix_decimal (mantissa : FixedPoint) (exponent : Option Exponent) :
    split_radix_prefix (NumberBody.Decimal mantissa exponent).text =
      (10, (NumberBody.Decimal mantissa exponent).text) :=
  split_radix_prefix_of_chars fun _ => NumberBody.decimal_chars

theorem split_radix_prefix_radix (integer : RadixInteger) :
    split_radix_prefix integer.text = (integer.base, integer.digits) := by
  unfold RadixInteger.text RadixInteger.marker RadixInteger.base radix_base split_radix_prefix
  cases integer.radix <;> cases integer.upper <;> rfl

theorem radix_base_ne_ten (radix : scan.Radix) : radix_base radix ≠ 10 := by
  cases radix <;> decide

/-! ## Kinds -/

theorem number_literal_kind_eq (text : List Char) (flag : Bool) :
    number_literal_kind text flag =
      if (split_sign text).2.head? == some '$' then .Money
      else if ( split_radix_prefix (split_sign text).2).1 != 10 then .Integer
      else if text.any fun c => c == '.' || c == 'e' || c == 'E' then
        if flag then .Decimal else .Float
      else .Integer := by
  unfold number_literal_kind split_sign
  split <;> rfl

namespace NumberText

variable {n : NumberText}

theorem gap_apart {c : Char} (h : n.gap.head? = some c) :
    c.isDigit = false ∧ c ≠ '.' ∧ c ≠ '_' ∧ c ≠ '$' := by
  unfold gap at h
  cases hfolded : n.folded with
  | none => simp [hfolded] at h
  | some folded =>
    rw [hfolded] at h
    exact folded.apart c h

/-- What stands between a sign and its number hides the marker of a radix. -/
theorem split_radix_prefix_gap (h : n.gap ≠ []) :
    split_radix_prefix (n.gap ++ n.body.text) = (10, n.gap ++ n.body.text) := by
  obtain ⟨c, gap, hgap⟩ := List.exists_cons_of_ne_nil h
  have hc : c.isDigit = false := (gap_apart (by rw [hgap]; rfl)).1
  rw [hgap, List.cons_append]
  refine split_radix_prefix_of_head ?_
  rintro rfl
  cases hc

theorem kind_money_iff {flag : Bool} :
    number_literal_kind n.text flag = .Money ↔
      n.gap = [] ∧ ∃ amount plain, n.body = .Money amount plain := by
  have hkind : number_literal_kind n.text flag = .Money ↔
      (n.gap ++ n.body.text).head? = some '$' := by
    rw [number_literal_kind_eq, split_sign_text]
    by_cases hhead : (n.gap ++ n.body.text).head? = some '$'
    · simp [hhead]
    · simp only [beq_iff_eq, hhead, if_false, iff_false]
      split
      · simp
      · split
        · cases flag <;> simp
        · simp
  rw [hkind]
  constructor
  · intro h
    cases hgap : n.gap with
    | cons c gap =>
      obtain rfl : c = '$' := by simpa [hgap] using h
      exact absurd rfl (gap_apart (by rw [hgap]; rfl)).2.2.2
    | nil =>
      refine ⟨rfl, ?_⟩
      rw [hgap, List.nil_append] at h
      cases hbody : n.body with
      | Decimal mantissa exponent =>
        obtain ⟨c, rest, heq, hc⟩ := NumberBody.decimal_head mantissa exponent
        rw [hbody, heq] at h
        obtain rfl : c = '$' := by simpa using h
        exact absurd hc (by decide)
      | Radix integer => simp [hbody, NumberBody.text, RadixInteger.text] at h
      | Money amount plain => exact ⟨amount, plain, rfl⟩
  · rintro ⟨hgap, amount, plain, hbody⟩
    rw [hgap, hbody]
    rfl

theorem kind_radix {integer : RadixInteger} {flag : Bool} (hgap : n.gap = [])
    (hbody : n.body = .Radix integer) : number_literal_kind n.text flag = .Integer := by
  rw [number_literal_kind_eq, split_sign_text, hgap, hbody]
  show (if _ then _ else if ( split_radix_prefix integer.text).1 != 10 then _ else _) = _
  rw [split_radix_prefix_radix]
  have hbase : (integer.base != 10) = true := by
    simpa [RadixInteger.base] using radix_base_ne_ten integer.radix
  simp [hbase, NumberBody.text, RadixInteger.text]

/-- A decimal number is an integer when it has no fraction and no exponent. -/
theorem kind_decimal_integer {mantissa : FixedPoint} {exponent : Option Exponent} {flag : Bool}
    (hgap : n.gap = []) (hbody : n.body = .Decimal mantissa exponent)
    (hkind : number_literal_kind n.text flag = .Integer) :
    mantissa.fraction = none ∧ exponent = none := by
  have hmoney : n.body.text.head? ≠ some '$' := by
    obtain ⟨c, rest, heq, hc⟩ := NumberBody.decimal_head mantissa exponent
    rw [hbody, heq]
    rintro ⟨rfl⟩
    exact absurd hc (by decide)
  have hnone : ¬ (n.text.any fun c => c == '.' || c == 'e' || c == 'E') = true := by
    intro hany
    rw [number_literal_kind_eq, split_sign_text, hgap, List.nil_append, if_neg (by simpa using hmoney),
      hbody, split_radix_prefix_decimal, if_neg (by simp), if_pos hany] at hkind
    cases flag <;> cases hkind
  have hchars (c : Char) (hc : c ∈ n.body.text) : c ≠ '.' ∧ c ≠ 'e' ∧ c ≠ 'E' := by
    have hfalse := List.any_eq_false.mp (Bool.eq_false_of_not_eq_true hnone) c
      (List.mem_append_right _ (List.mem_append_right _ hc))
    simpa [and_assoc] using hfalse
  rw [hbody] at hchars
  constructor
  · cases hfraction : mantissa.fraction with
    | none => rfl
    | some run =>
      have hpoint : '.' ∈ (NumberBody.Decimal mantissa exponent).text := by
        simp [NumberBody.text, FixedPoint.text, hfraction]
      exact absurd rfl (hchars _ hpoint).1
  · cases exponent with
    | none => rfl
    | some exponent =>
      have hmarker := hchars exponent.marker (by simp [NumberBody.text, Exponent.text])
      unfold Exponent.marker at hmarker
      cases hupper : exponent.upper <;> simp [hupper] at hmarker

end NumberText

/-! ## The literal in its source -/

namespace NumberText

variable (n : NumberText) (front back : List Char) (flag : Bool)

/-- The literal that the number is behind a front. -/
def literal_at : Literal :=
  ⟨number_literal_kind n.text flag, ⟨(encode front).length, (encode (front ++ n.text)).length⟩⟩

def source : List SourceByte := encode (front ++ n.text ++ back)

theorem source_text_literal_at :
    (n.literal_at front flag).source_text (n.source front back) = .ok n.text := by
  have hlength : (encode (front ++ n.text)).length = (encode front).length + (encode n.text).length := by
    rw [encode_append, List.length_append]
  have hreal : (n.literal_at front flag).span.is_synthetic = false := by
    simp only [Span.is_synthetic, Span.SYNTHETIC, literal_at, beq_eq_false_iff_ne, ne_eq, Span.mk.injEq]
    omega
  have hsource : n.source front back = encode front ++ (encode n.text ++ encode back) := by
    rw [source, encode_append, encode_append, List.append_assoc]
  have hsource' : n.source front back = encode (front ++ n.text) ++ encode back := encode_append ..
  have hstart : is_char_boundary (n.source front back) (encode front).length = true := by
    unfold is_char_boundary
    rw [hsource, List.drop_left, ← encode_append, whole_encode]
    simp
  have hstop : is_char_boundary (n.source front back) (encode (front ++ n.text)).length = true := by
    unfold is_char_boundary
    rw [hsource', List.drop_left, whole_encode]
    simp
  have hget : get (n.source front back) (n.literal_at front flag).span = some n.text := by
    unfold get literal_at
    rw [if_pos ⟨by dsimp only; omega, hstart, hstop⟩]
    dsimp only
    rw [hlength, Nat.add_sub_cancel_left, hsource, List.drop_left, List.take_left,
      scan.chars_encode]
  unfold Literal.source_text
  rw [hreal, hget]
  rfl

end NumberText

end squonk.ast.literal
