import Squonk.Tokenizer.NumberGrammar

/-!
# The scan of numbers

The scanner takes the longest number of the grammar that stands at the cursor.
-/

open squonk.dialect squonk.dialect.lex_class squonk.ast.literal

namespace squonk.tokenizer.scan

variable {features : FeatureSet}

/-! ## Bytes and characters -/

theorem forall_byte {p : UInt8 → Prop} (h : ∀ n : Fin 256, p (UInt8.ofNat n)) (byte : UInt8) :
    p byte := by
  have hbyte := h ⟨byte.toNat, byte.toNat_lt⟩
  rwa [UInt8.ofNat_toNat] at hbyte

theorem is_ascii_digit_char (b : SourceByte) : is_ascii_digit b.byte = (ascii_char b).isDigit :=
  forall_byte (p := fun byte => is_ascii_digit byte = (Char.ofNat byte.toNat).isDigit)
    (by decide +kernel) b.byte

theorem radix_digit_char (radix : Radix) (b : SourceByte) :
    radix.is_digit b.byte = radix_digit radix (ascii_char b) :=
  forall_byte (p := fun byte => radix.is_digit byte = radix_digit radix (Char.ofNat byte.toNat))
    (by cases radix <;> decide +kernel) b.byte

theorem byte_eq_ascii {c : Char} (hc : c.toNat < 0x80) (b : SourceByte) :
    (b.byte == ascii c) = (ascii_char b == c) := by
  rw [Bool.eq_iff_iff, beq_iff_eq, beq_iff_eq, ascii_char_eq_iff hc]

/-! ## Runs -/

theorem tailStops_nil {digit : Char → Bool} {separators : Bool} : TailStops digit separators [] :=
  ⟨nofun, nofun⟩

/-- Behind a digit the scanner takes all digits that follow, with their separators. -/
theorem eat_decimal_run_tail (hplain : PlainDigits features) (separators strict : Bool) (pos : Nat)
    (rest : List SourceByte) :
    ∃ front back, rest = front ++ back ∧
      eat_decimal_run features separators strict true pos rest = ⟨pos + front.length, back⟩ ∧
      DigitTail Char.isDigit separators (front.map ascii_char) ∧
      TailStops Char.isDigit separators (back.map ascii_char) := by
  induction hlength : rest.length using Nat.strong_induction_on generalizing pos rest with
  | _ length ih =>
  subst hlength
  have hdigit (b : SourceByte) : is_digit features b.byte = (ascii_char b).isDigit :=
    (hplain b.byte).trans (is_ascii_digit_char b)
  cases rest with
  | nil => exact ⟨[], [], rfl, rfl, .nil, tailStops_nil⟩
  | cons b rest =>
    rw [eat_decimal_run, hdigit]
    split
    · rename_i hb
      obtain ⟨front, back, hrest, heat, htail, hstops⟩ :=
        ih rest.length (by simp) (pos + 1) rest rfl
      refine ⟨b :: front, back, by rw [hrest, List.cons_append], ?_, .digit hb htail, hstops⟩
      rw [heat, List.length_cons, Nat.add_assoc, Nat.add_comm 1]
    · rename_i hb
      rw [byte_eq_ascii (by decide)]
      cases rest with
      | nil =>
        rw [if_neg (by simp)]
        refine ⟨[], [b], rfl, rfl, .nil, ⟨?_, ?_⟩⟩
        · rintro c tail ⟨rfl, rfl⟩
          simpa using hb
        · rintro c tail - heq
          simp at heq
      | cons d rest =>
        split
        · rename_i hseparator
          simp only [Bool.and_eq_true, beq_iff_eq, List.head?_cons, Option.any_some, hdigit,
            Bool.or_true] at hseparator
          obtain ⟨⟨⟨hunderscore, hseparators⟩, -⟩, hd⟩ := hseparator
          obtain ⟨front, back, hrest, heat, htail, hstops⟩ :=
            ih rest.length (by simp only [List.length_cons]; omega) (pos + 2) rest rfl
          refine ⟨b :: d :: front, back, by rw [hrest]; rfl, ?_, ?_, hstops⟩
          · rw [eat_decimal_run, hdigit, if_pos hd, Nat.add_assoc, heat]
            simp only [List.length_cons, Cursor.mk.injEq, and_true]
            omega
          · rw [List.map_cons, List.map_cons, hunderscore]
            exact .separator hseparators hd htail
        · rename_i hseparator
          refine ⟨[], b :: d :: rest, rfl, rfl, .nil, ⟨?_, ?_⟩⟩
          · rintro c tail ⟨rfl, rfl⟩
            simpa using hb
          · rintro c tail hseparators heq
            obtain ⟨hunderscore, hcons⟩ := List.cons.inj heq
            obtain ⟨rfl, -⟩ := List.cons.inj hcons
            simpa [hunderscore, hseparators, hdigit] using hseparator

/-- Behind a marker the scanner takes all digits of the radix, with their separators. -/
theorem eat_radix_run_tail (radix : Radix) (separators : Bool) (pos : Nat)
    (rest : List SourceByte) :
    ∃ front back, rest = front ++ back ∧
      eat_radix_run radix separators pos rest = ⟨pos + front.length, back⟩ ∧
      DigitTail (radix_digit radix) separators (front.map ascii_char) ∧
      TailStops (radix_digit radix) separators (back.map ascii_char) := by
  induction hlength : rest.length using Nat.strong_induction_on generalizing pos rest with
  | _ length ih =>
  subst hlength
  cases rest with
  | nil => exact ⟨[], [], rfl, rfl, .nil, tailStops_nil⟩
  | cons b rest =>
    rw [eat_radix_run, radix_digit_char, byte_eq_ascii (by decide)]
    by_cases hb : radix_digit radix (ascii_char b) = true
    · rw [hb, Bool.true_or, if_pos rfl]
      obtain ⟨front, back, hrest, heat, htail, hstops⟩ :=
        ih rest.length (by simp) (pos + 1) rest rfl
      refine ⟨b :: front, back, by rw [hrest, List.cons_append], ?_, .digit hb htail, hstops⟩
      rw [heat, List.length_cons, Nat.add_assoc, Nat.add_comm 1]
    · rw [Bool.eq_false_of_not_eq_true hb, Bool.false_or]
      have hfirst : ∀ c tail, (b :: rest).map ascii_char = c :: tail →
          radix_digit radix c = false := by
        rintro c tail ⟨rfl, rfl⟩
        exact Bool.eq_false_of_not_eq_true hb
      cases rest with
      | nil =>
        rw [if_neg (by simp)]
        exact ⟨[], [b], rfl, rfl, .nil, hfirst, fun c tail _ heq => by simp at heq⟩
      | cons d rest =>
        split
        · rename_i hseparator
          simp only [Bool.and_eq_true, beq_iff_eq, List.head?_cons, Option.any_some,
            radix_digit_char] at hseparator
          obtain ⟨⟨hunderscore, hseparators⟩, hd⟩ := hseparator
          obtain ⟨front, back, hrest, heat, htail, hstops⟩ :=
            ih rest.length (by simp only [List.length_cons]; omega) (pos + 2) rest rfl
          refine ⟨b :: d :: front, back, by rw [hrest]; rfl, ?_, ?_, hstops⟩
          · rw [eat_radix_run, radix_digit_char, hd, Bool.true_or, if_pos rfl, Nat.add_assoc, heat]
            simp only [List.length_cons, Cursor.mk.injEq, and_true]
            omega
          · rw [List.map_cons, List.map_cons, hunderscore]
            exact .separator hseparators hd htail
        · rename_i hseparator
          refine ⟨[], b :: d :: rest, rfl, rfl, .nil, hfirst, ?_⟩
          rintro c tail hseparators heq
          obtain ⟨hunderscore, hcons⟩ := List.cons.inj heq
          obtain ⟨rfl, -⟩ := List.cons.inj hcons
          simpa [hunderscore, hseparators, radix_digit_char] using hseparator

/-! ## What the scanner takes -/

/-- The cursor is moved over a front of a kind. No other front of the kind is longer, and one that
    no digit and no separator follows is the same. -/
def Takes (P : List Char → Prop) (c stop : Cursor) : Prop :=
  ∃ front back, c.rest = front ++ back ∧ stop = ⟨c.pos + front.length, back⟩ ∧
    P (front.map ascii_char) ∧
    ∀ other behind, P other → other ++ behind = text_at c → other.length ≤ front.length ∧
      ((∀ d tail, behind = d :: tail → d.isDigit = false ∧ d ≠ '_') →
        other = front.map ascii_char ∧ behind = back.map ascii_char)

/-- Digits are taken whole. -/
theorem Takes.of_run {digit : Char → Bool} {separators : Bool} {c : Cursor}
    {front back : List SourceByte} (hsep : digit '_' = false)
    (hdigit : ∀ d, digit d = true → d.isDigit = true) (hrest : c.rest = front ++ back)
    (hrun : DigitRun digit separators (front.map ascii_char))
    (hstops : TailStops digit separators (back.map ascii_char)) :
    Takes (DigitRun digit separators) c ⟨c.pos + front.length, back⟩ := by
  refine ⟨front, back, hrest, rfl, hrun, fun other behind hother heq => ?_⟩
  rw [text_at, hrest, List.map_append] at heq
  have hle := hother.tail.length_le hsep hrun.tail hstops heq
  rw [List.length_map] at hle
  refine ⟨hle, fun hbehind => hother.tail.unique hsep hrun.tail ⟨?_, ?_⟩ hstops heq⟩
  · intro d tail hcons
    refine Bool.eq_false_of_not_eq_true fun hd => ?_
    have hplain := hdigit d hd
    rw [(hbehind d tail hcons).1] at hplain
    cases hplain
  · intro d tail _ hcons
    exact absurd rfl (hbehind '_' _ hcons).2

/-- From a digit on the scanner takes digits with the separators of the dialect. -/
theorem eat_decimal_digits_run (hplain : PlainDigits features) (separators strict : Bool)
    {c : Cursor} (hdigit : c.peek.any (is_digit features) = true) :
    Takes (DigitRun Char.isDigit separators) c
      (eat_decimal_digits features c separators strict) := by
  cases hrest : c.rest with
  | nil => simp [Cursor.peek, Cursor.peek_nth, hrest] at hdigit
  | cons b rest =>
    have hb : is_digit features b.byte = true := by
      simpa [Cursor.peek, Cursor.peek_nth, hrest] using hdigit
    obtain ⟨front, back, hsplit, heat, htail, hstops⟩ :=
      eat_decimal_run_tail hplain separators strict (c.pos + 1) rest
    have hchar : (ascii_char b).isDigit = true := by
      rw [← is_ascii_digit_char, ← hplain]
      exact hb
    have htakes := @Takes.of_run Char.isDigit separators c (b :: front) back rfl (fun _ h => h)
      (by rw [hrest, hsplit, List.cons_append]) ⟨_, _, rfl, hchar, htail⟩ hstops
    rw [eat_decimal_digits, hrest, eat_decimal_run, if_pos hb, heat]
    rwa [List.length_cons, Nat.add_comm front.length, ← Nat.add_assoc] at htakes

theorem DigitRun.head {digit : Char → Bool} {separators : Bool} {c : Char}
    {run tail behind : List Char} (h : DigitRun digit separators run) (heq : run ++ tail = c :: behind) : digit c = true := by
  obtain ⟨d, rest, rfl, hd, -⟩ := h
  rwa [← (List.cons.inj heq).1]

/-- Behind a point the scanner takes a fraction. -/
theorem eat_decimal_digits_fraction (hplain : PlainDigits features) (c : Cursor) :
    Takes (Fraction features) c (eat_decimal_digits features c
      features.numeric_literals.underscore_separators
      features.numeric_literals.reject_trailing_junk) := by
  have hdigit (b : SourceByte) : is_digit features b.byte = (ascii_char b).isDigit :=
    (hplain b.byte).trans (is_ascii_digit_char b)
  have hnone (hrun : ∀ run behind, IsRun features Char.isDigit run → run ++ behind ≠ text_at c)
      (hled : ∀ run behind, features.numeric_literals.reject_trailing_junk = false →
        Led features Char.isDigit run → run ++ behind ≠ text_at c) :
      Takes (Fraction features) c c := by
    refine ⟨[], c.rest, rfl, rfl, .inl rfl, fun other behind hother heq => ?_⟩
    obtain rfl | hother | ⟨hloose, hother⟩ := hother
    · exact ⟨le_rfl, fun _ => ⟨rfl, heq⟩⟩
    · exact absurd heq (hrun other behind hother)
    · exact absurd heq (hled other behind hloose hother)
  cases hrest : c.rest with
  | nil =>
    have hempty : text_at c = [] := by rw [text_at, hrest]; rfl
    have hself : eat_decimal_digits features c features.numeric_literals.underscore_separators
        features.numeric_literals.reject_trailing_junk = c := by
      rw [eat_decimal_digits, hrest, eat_decimal_run, ← hrest]
    rw [hself]
    refine hnone ?_ ?_
    · rintro run behind hrun heq
      rw [hempty] at heq
      exact hrun.ne_nil (List.append_eq_nil_iff.mp heq).1
    · rintro run behind - ⟨-, tail, rfl, -⟩ heq
      rw [hempty] at heq
      cases heq
  | cons b rest =>
    have htext : text_at c = ascii_char b :: rest.map ascii_char := by rw [text_at, hrest]; rfl
    by_cases hb : (ascii_char b).isDigit = true
    · have hpeek : c.peek.any (is_digit features) = true := by
        simp [Cursor.peek, Cursor.peek_nth, hrest, hdigit, hb]
      obtain ⟨front, back, hsplit, hstop, hrun, hmax⟩ := eat_decimal_digits_run hplain
        features.numeric_literals.underscore_separators
        features.numeric_literals.reject_trailing_junk hpeek
      refine ⟨front, back, hsplit, hstop, .inr (.inl hrun), fun other behind hother heq => ?_⟩
      obtain rfl | hother | ⟨-, -, tail, rfl, -⟩ := hother
      · refine ⟨Nat.zero_le _, fun hbehind => ?_⟩
        have hfirst := (hbehind _ _ (heq.trans htext)).1
        rw [hb] at hfirst
        cases hfirst
      · exact hmax other behind hother heq
      · rw [htext, List.cons_append] at heq
        rw [← (List.cons.inj heq).1] at hb
        cases hb
    · by_cases hseparator : (b.byte == ascii '_' && features.numeric_literals.underscore_separators &&
        (!features.numeric_literals.reject_trailing_junk || false) &&
        rest.head?.any fun b => is_digit features b.byte) = true
      · have hled := hseparator
        rw [byte_eq_ascii (by decide)] at hled
        simp only [Bool.or_false, Bool.and_eq_true, beq_iff_eq, Bool.not_eq_true'] at hled
        obtain ⟨⟨⟨hunderscore, hseparators⟩, hloose⟩, hnext⟩ := hled
        have hpeek : (Cursor.mk (c.pos + 1) rest).peek.any (is_digit features) = true := by
          cases rest with
          | nil => cases hnext
          | cons d rest => exact hnext
        obtain ⟨front, back, hsplit, hstop, hrun, hmax⟩ := eat_decimal_digits_run hplain
          features.numeric_literals.underscore_separators
          features.numeric_literals.reject_trailing_junk hpeek
        refine ⟨b :: front, back, by rw [hrest]; exact congrArg _ hsplit, ?_, .inr (.inr ⟨hloose,
          hseparators, _, congrArg (· :: _) hunderscore, hrun⟩), fun other behind hother heq => ?_⟩
        · rw [eat_decimal_digits, hrest, eat_decimal_run, hdigit, if_neg hb, if_pos hseparator]
          refine Eq.trans hstop ?_
          rw [List.length_cons, Nat.add_assoc, Nat.add_comm 1]
        · rw [htext] at heq
          obtain rfl | hother | ⟨-, -, tail, rfl, htail⟩ := hother
          · exact ⟨Nat.zero_le _, fun hbehind => absurd hunderscore (hbehind _ _ heq).2⟩
          · exact absurd (hother.head heq) hb
          · obtain ⟨hle, hsame⟩ := hmax tail behind htail (List.cons.inj heq).2
            refine ⟨Nat.succ_le_succ hle, fun hbehind => ?_⟩
            obtain ⟨rfl, hback⟩ := hsame hbehind
            exact ⟨congrArg (· :: _) hunderscore.symm, hback⟩
      · have hself : eat_decimal_digits features c features.numeric_literals.underscore_separators
            features.numeric_literals.reject_trailing_junk = c := by
          rw [eat_decimal_digits, hrest, eat_decimal_run, hdigit, if_neg hb, if_neg hseparator,
            ← hrest]
        rw [hself]
        refine hnone ?_ ?_
        · intro run behind hrun heq
          exact hb (hrun.head (heq.trans htext))
        · rintro run behind hloose ⟨hseparators, tail, rfl, htail⟩ heq
          rw [htext, List.cons_append] at heq
          obtain ⟨hunderscore, heq⟩ := List.cons.inj heq
          refine hseparator ?_
          rw [byte_eq_ascii (by decide), ← hunderscore, hseparators, hloose]
          cases rest with
          | nil => exact absurd heq (by simp [htail.ne_nil])
          | cons d rest => simp [hdigit, htail.head heq]

/-! ## Fixed-point numbers -/

/-- The cursor is moved over the longest mantissa, which is also the only one that an exponent can
    follow. -/
structure TakesMantissa (features : FeatureSet) (c : Cursor) (shape : NumberShape)
    (front back : List SourceByte) : Prop where
  split : c.rest = front ++ back
  mantissa : Mantissa features shape (front.map ascii_char)
  longest : ∀ other shape' behind, Mantissa features shape' other → other ++ behind = text_at c →
    other.length ≤ front.length
  alone : ∀ other shape' marker behind, Mantissa features shape' other → marker ∈ ['e', 'E'] →
    other ++ marker :: behind = text_at c →
      other = front.map ascii_char ∧ marker :: behind = back.map ascii_char

theorem marker_plain {marker : Char} (h : marker ∈ ['e', 'E']) :
    marker.isDigit = false ∧ marker ≠ '_' := by
  simp only [List.mem_cons, List.not_mem_nil, or_false] at h
  obtain rfl | rfl := h <;> decide

theorem behind_marker {marker : Char} {behind : List Char} (h : marker ∈ ['e', 'E']) :
    ∀ d tail, marker :: behind = d :: tail → d.isDigit = false ∧ d ≠ '_' := by
  rintro d tail ⟨rfl, rfl⟩
  exact marker_plain h

theorem peek_eq_point {c : Cursor} :
    (c.peek == some (ascii '.')) = ((text_at c)[0]? == some '.') :=
  peek_nth_eq_iff (by decide)

theorem bump_of_text {c : Cursor} {d : Char} {behind : List Char} (h : text_at c = d :: behind) :
    ∃ b rest, c.rest = b :: rest ∧ ascii_char b = d ∧ c.bump = ⟨c.pos + 1, rest⟩ ∧
      text_at c.bump = behind := by
  unfold text_at at h ⊢
  cases hrest : c.rest with
  | nil => simp [hrest] at h
  | cons b rest =>
    rw [hrest] at h
    obtain ⟨hb, hbehind⟩ := List.cons.inj h
    refine ⟨b, rest, rfl, hb, ?_, ?_⟩
    · simp [Cursor.bump, hrest]
    · simpa [Cursor.bump, hrest] using hbehind

/-- A number with a leading point. -/
theorem takes_leading_point (hplain : PlainDigits features) {c : Cursor}
    (hpoint : c.peek = some (ascii '.'))
    (hdigit : (c.peek_nth 1).any (is_digit features) = true) :
    ∃ shape front back, TakesMantissa features c shape front back ∧
      eat_decimal_digits features c.bump features.numeric_literals.underscore_separators
        features.numeric_literals.reject_trailing_junk = ⟨c.pos + front.length, back⟩ := by
  have hhead : (text_at c)[0]? = some '.' := by
    have heq := peek_eq_point (c := c)
    rw [hpoint, beq_self_eq_true] at heq
    exact eq_of_beq heq.symm
  obtain ⟨behind, htext⟩ : ∃ behind, text_at c = '.' :: behind := by
    cases hcase : text_at c with
    | nil => simp [hcase] at hhead
    | cons d behind => exact ⟨behind, by simpa [hcase] using hhead⟩
  obtain ⟨b, rest, hrest, hb, hbump, hnext⟩ := bump_of_text htext
  have hpeek : c.bump.peek.any (is_digit features) = true := by
    simpa [Cursor.peek, Cursor.peek_nth, hbump, hrest] using hdigit
  obtain ⟨front, back, hsplit, hstop, hrun, hmax⟩ := eat_decimal_digits_run hplain
    features.numeric_literals.underscore_separators
    features.numeric_literals.reject_trailing_junk hpeek
  have hnot {run tail : List Char} (h : IsRun features Char.isDigit run)
      (heq : run ++ tail = '.' :: behind) : False := by
    have hfirst := h.head heq
    revert hfirst
    decide
  refine ⟨.Fractional, b :: front, back, ⟨?_, ?_, ?_, ?_⟩, ?_⟩
  · rw [hbump] at hsplit
    rw [hrest, List.cons_append]
    exact congrArg _ hsplit
  · rw [List.map_cons, hb]
    exact .leading_point hrun
  · intro other shape' tail hother heq
    rw [htext] at heq
    cases hother with
    | whole h => exact (hnot h heq).elim
    | point hwhole hfraction => exact (hnot hwhole ((List.append_assoc ..).symm.trans heq)).elim
    | leading_point h =>
      exact Nat.succ_le_succ (hmax _ tail h ((List.cons.inj heq).2.trans hnext.symm)).1
  · intro other shape' marker tail hother hmarker heq
    rw [htext] at heq
    cases hother with
    | whole h => exact (hnot h heq).elim
    | point hwhole hfraction => exact (hnot hwhole ((List.append_assoc ..).symm.trans heq)).elim
    | leading_point h =>
      obtain ⟨rfl, hback⟩ := (hmax _ _ h ((List.cons.inj heq).2.trans hnext.symm)).2
        (behind_marker hmarker)
      exact ⟨by rw [List.map_cons, hb], hback⟩
  · rw [hstop, hbump, List.length_cons, Nat.add_assoc, Nat.add_comm 1]

/-- A number that begins with a digit. -/
theorem takes_whole (hplain : PlainDigits features) {c : Cursor}
    (hdigit : c.peek.any (is_digit features) = true) :
    ∃ shape front back, TakesMantissa features c shape front back ∧
      (let cursor := eat_decimal_digits features c features.numeric_literals.underscore_separators
          features.numeric_literals.reject_trailing_junk
        if cursor.peek == some (ascii '.') then
          eat_decimal_digits features cursor.bump features.numeric_literals.underscore_separators
            features.numeric_literals.reject_trailing_junk
        else cursor) = ⟨c.pos + front.length, back⟩ := by
  obtain ⟨whole, back, hsplit, hstop, hrun, hmax⟩ := eat_decimal_digits_run hplain
    features.numeric_literals.underscore_separators
    features.numeric_literals.reject_trailing_junk hdigit
  have htext : text_at c = whole.map ascii_char ++ back.map ascii_char := by
    rw [text_at, hsplit, List.map_append]
  have hleading (run tail : List Char) (heq : '.' :: run ++ tail = text_at c) : False := by
    obtain ⟨d, rest, hcons, hd, -⟩ := hrun
    rw [htext, hcons, List.cons_append, List.cons_append] at heq
    rw [← (List.cons.inj heq).1] at hd
    cases hd
  have hpointed {run fraction tail : List Char} (h : IsRun features Char.isDigit run)
      (heq : run ++ '.' :: fraction ++ tail = text_at c) :
      run = whole.map ascii_char ∧ '.' :: (fraction ++ tail) = back.map ascii_char :=
    (hmax run ('.' :: (fraction ++ tail)) h (by rw [← heq]; simp)).2 fun d rest hcons => by
      rw [← (List.cons.inj hcons).1]
      decide
  dsimp only
  rw [hstop]
  split
  · rename_i hpoint
    rw [peek_eq_point] at hpoint
    obtain ⟨behind, hbehind⟩ : ∃ behind, text_at ⟨c.pos + whole.length, back⟩ = '.' :: behind := by
      cases hcase : text_at ⟨c.pos + whole.length, back⟩ with
      | nil => simp [hcase] at hpoint
      | cons d behind => exact ⟨behind, by simpa [hcase] using hpoint⟩
    obtain ⟨b, rest, hback, hb, hbump, hnext⟩ := bump_of_text hbehind
    obtain ⟨front, stop, hsplit', hstop', hfraction, hmax'⟩ :=
      eat_decimal_digits_fraction hplain (Cursor.bump ⟨c.pos + whole.length, back⟩)
    rw [hbump] at hsplit'
    obtain rfl : back = b :: rest := hback
    obtain rfl : rest = front ++ stop := hsplit'
    have hback' : (b :: (front ++ stop)).map ascii_char = '.' :: behind := hbehind
    refine ⟨.Fractional, whole ++ b :: front, stop, ⟨?_, ?_, ?_, ?_⟩, ?_⟩
    · rw [hsplit, List.append_assoc, List.cons_append]
    · rw [List.map_append, List.map_cons, hb]
      exact .point hrun hfraction
    · intro other shape' tail hother heq
      cases hother with
      | whole h =>
        have hle := (hmax _ tail h heq).1
        rw [List.length_append]
        omega
      | point hwhole hother =>
        obtain ⟨rfl, htail⟩ := hpointed hwhole heq
        rw [hback'] at htail
        have hle := (hmax' _ tail hother ((List.cons.inj htail).2.trans hnext.symm)).1
        simp only [List.length_append, List.length_cons, List.length_map]
        omega
      | leading_point h => exact (hleading _ _ heq).elim
    · intro other shape' marker tail hother hmarker heq
      cases hother with
      | whole h =>
        have htail := ((hmax _ _ h heq).2 (behind_marker hmarker)).2
        rw [hback'] at htail
        rw [(List.cons.inj htail).1] at hmarker
        exact absurd hmarker (by decide)
      | point hwhole hother =>
        obtain ⟨rfl, htail⟩ := hpointed hwhole heq
        rw [hback'] at htail
        obtain ⟨rfl, hstop⟩ := (hmax' _ _ hother ((List.cons.inj htail).2.trans hnext.symm)).2
          (behind_marker hmarker)
        exact ⟨by rw [List.map_append, List.map_cons, hb], hstop⟩
      | leading_point h => exact (hleading _ _ heq).elim
    · rw [hstop', hbump, List.length_append, List.length_cons]
      simp only [Cursor.mk.injEq, and_true]
      omega
  · rename_i hpoint
    have hnopoint (tail : List Char) (h : '.' :: tail = back.map ascii_char) : False := by
      rw [peek_eq_point] at hpoint
      refine hpoint ?_
      unfold text_at
      rw [← h]
      rfl
    refine ⟨.Integer, whole, back, ⟨hsplit, .whole hrun, ?_, ?_⟩, rfl⟩
    · intro other shape' tail hother heq
      cases hother with
      | whole h => exact (hmax _ tail h heq).1
      | point hwhole hother => exact (hnopoint _ (hpointed hwhole heq).2).elim
      | leading_point h => exact (hleading _ _ heq).elim
    · intro other shape' marker tail hother hmarker heq
      cases hother with
      | whole h => exact (hmax _ _ h heq).2 (behind_marker hmarker)
      | point hwhole hother => exact (hnopoint _ (hpointed hwhole heq).2).elim
      | leading_point h => exact (hleading _ _ heq).elim

theorem eat_fixed_point_takes (hplain : PlainDigits features) {c : Cursor}
    (hstarts : NumberStarts features c) :
    ∃ shape front back, TakesMantissa features c shape front back ∧
      eat_fixed_point features c features.numeric_literals.underscore_separators
        features.numeric_literals.reject_trailing_junk = ⟨c.pos + front.length, back⟩ := by
  have hpoint : is_digit features (ascii '.') = false := hplain _
  unfold eat_fixed_point
  obtain hdigit | ⟨hpeek, hdigit⟩ := hstarts
  · have hpeek : ¬ (c.peek == some (ascii '.')) = true := by
      intro hpeek
      rw [eq_of_beq hpeek, Option.any_some, hpoint] at hdigit
      cases hdigit
    rw [if_neg hpeek]
    exact takes_whole hplain hdigit
  · rw [hpeek, beq_self_eq_true, if_pos rfl]
    exact takes_leading_point hplain hpeek hdigit

/-! ## Exponents -/

theorem is_sign_eq (b : SourceByte) : is_sign b.byte = is_sign_char (ascii_char b) := by
  rw [is_sign, byte_eq_ascii (by decide), byte_eq_ascii (by decide)]
  rfl

theorem peek_nth_any (c : Cursor) (n : Nat) {p : UInt8 → Bool} {q : Char → Bool}
    (h : ∀ b : SourceByte, p b.byte = q (ascii_char b)) :
    (c.peek_nth n).any p = (text_at c)[n]?.any q := by
  unfold Cursor.peek_nth text_at
  rw [List.getElem?_map]
  cases c.rest[n]? with
  | none => rfl
  | some b => exact h b

theorem exponent_follows_text (hplain : PlainDigits features) (c : Cursor) :
    exponent_follows features c =
      (text_at c)[if (text_at c)[1]?.any is_sign_char then 2 else 1]?.any
        Char.isDigit := by
  have hdigit (b : SourceByte) : is_digit features b.byte = (ascii_char b).isDigit :=
    (hplain b.byte).trans (is_ascii_digit_char b)
  unfold exponent_follows
  rw [peek_nth_any c 1 is_sign_eq]
  exact peek_nth_any c _ hdigit

/-- An exponent that stands at the cursor follows there. -/
theorem exponent_of_text (hplain : PlainDigits features) {c : Cursor} {e behind : List Char}
    (h : Exponent features e) (heq : e ++ behind = text_at c) :
    ((c.peek == some (ascii 'e') || c.peek == some (ascii 'E')) &&
      exponent_follows features c) = true := by
  obtain ⟨marker, sign, run, rfl, hmarker, hsign, d, tail, rfl, hd, -⟩ := h
  have hplus : d ≠ '+' := by
    rintro rfl
    cases hd
  have hminus : d ≠ '-' := by
    rintro rfl
    cases hd
  have hpeek : (c.peek == some (ascii 'e') || c.peek == some (ascii 'E')) = true := by
    have he := @peek_nth_eq_iff c 0 'e' (by decide)
    have hE := @peek_nth_eq_iff c 0 'E' (by decide)
    rw [Cursor.peek, he, hE, ← heq]
    simpa using hmarker
  rw [hpeek, Bool.true_and, exponent_follows_text hplain, ← heq]
  simp only [List.mem_cons, List.not_mem_nil, or_false] at hsign
  obtain rfl | rfl | rfl := hsign
  · simp [is_sign_char, hplus, hminus, hd]
  · simp [is_sign_char, hd]
  · simp [is_sign_char, hd]

/-- The scanner takes an exponent where there is one. -/
theorem eat_exponent_takes (hplain : PlainDigits features) (c : Cursor) :
    ∃ front back, c.rest = front ++ back ∧
      eat_exponent features c features.numeric_literals.underscore_separators
        features.numeric_literals.reject_trailing_junk = ⟨c.pos + front.length, back⟩ ∧
      (front = [] ∨ Exponent features (front.map ascii_char)) ∧
      ∀ e behind, Exponent features e → e ++ behind = text_at c → e.length ≤ front.length := by
  have hdigit (b : SourceByte) : is_digit features b.byte = (ascii_char b).isDigit :=
    (hplain b.byte).trans (is_ascii_digit_char b)
  unfold eat_exponent
  split
  · rename_i hfollows
    obtain ⟨hmarker, hfollows⟩ := (Bool.and_eq_true ..).mp hfollows
    obtain ⟨b, rest, hrest, hb⟩ : ∃ b rest, c.rest = b :: rest ∧ ascii_char b ∈ ['e', 'E'] := by
      cases hrest : c.rest with
      | nil => simp [Cursor.peek, Cursor.peek_nth, hrest] at hmarker
      | cons b rest =>
        refine ⟨b, rest, rfl, ?_⟩
        have hpeek : c.peek = some b.byte := by simp [Cursor.peek, Cursor.peek_nth, hrest]
        rw [hpeek] at hmarker
        have hchar : (ascii_char b == 'e' || ascii_char b == 'E') = true := by
          rwa [← byte_eq_ascii (by decide), ← byte_eq_ascii (by decide)]
        simpa using hchar
    have hbump : c.bump = ⟨c.pos + 1, rest⟩ := by simp [Cursor.bump, hrest]
    have htext : text_at c = ascii_char b :: text_at c.bump := by
      rw [hbump, text_at, hrest]
      rfl
    dsimp only
    cases hsign : c.bump.peek.any is_sign with
    | true =>
      obtain ⟨s, digits, hdigits, hs⟩ : ∃ s digits, rest = s :: digits ∧ is_sign s.byte = true := by
        cases rest with
        | nil => simp [hbump, Cursor.peek, Cursor.peek_nth] at hsign
        | cons s digits => exact ⟨s, digits, rfl, by simpa [hbump, Cursor.peek, Cursor.peek_nth] using hsign⟩
      subst hdigits
      have hbump' : c.bump.bump = ⟨c.pos + 2, digits⟩ := by simp [Cursor.bump, hrest]
      have hpeek : c.bump.bump.peek.any (is_digit features) = true := by
        simpa [exponent_follows, Cursor.peek, Cursor.peek_nth, hrest, hs, hbump'] using hfollows
      obtain ⟨front, back, hsplit, hstop, hrun, hmax⟩ := eat_decimal_digits_run hplain
        features.numeric_literals.underscore_separators
        features.numeric_literals.reject_trailing_junk hpeek
      rw [hbump'] at hsplit
      obtain rfl : digits = front ++ back := hsplit
      have hchar := (is_sign_eq s).symm.trans hs
      refine ⟨b :: s :: front, back, hrest, ?_, .inr ⟨ascii_char b, [ascii_char s], _, rfl, hb, ?_,
        hrun⟩, fun e behind he heq => ?_⟩
      · rw [if_pos rfl, hstop, hbump']
        simp only [List.length_cons, Cursor.mk.injEq, and_true]
        omega
      · simp only [is_sign_char, Bool.or_eq_true, beq_iff_eq] at hchar
        obtain h | h := hchar <;> rw [h] <;> decide
      · obtain ⟨marker, sign, run, rfl, -, hsigns, hother⟩ := he
        have hbehind : sign ++ run ++ behind = ascii_char s :: text_at c.bump.bump := by
          rw [htext, hbump, text_at] at heq
          rw [hbump', text_at]
          simpa using (List.cons.inj heq).2
        simp only [List.mem_cons, List.not_mem_nil, or_false] at hsigns
        obtain rfl | hsigns := hsigns
        · -- a sign is no digit
          have hfirst := hother.head hbehind
          simp only [is_sign_char, Bool.or_eq_true, beq_iff_eq] at hchar
          obtain h | h := hchar <;> rw [h] at hfirst <;> cases hfirst
        · obtain ⟨mark, rfl⟩ : ∃ mark, sign = [mark] := by
            obtain rfl | rfl := hsigns <;> exact ⟨_, rfl⟩
          have hle := (hmax run behind hother (List.cons.inj hbehind).2).1
          simpa using hle
    | false =>
      have hpeek : c.bump.peek.any (is_digit features) = true := by
        have hnext : c.peek_nth 1 = c.bump.peek := by
          simp [Cursor.peek, Cursor.peek_nth, hrest, hbump]
        simpa [exponent_follows, hnext, hsign] using hfollows
      obtain ⟨front, back, hsplit, hstop, hrun, hmax⟩ := eat_decimal_digits_run hplain
        features.numeric_literals.underscore_separators
        features.numeric_literals.reject_trailing_junk hpeek
      rw [hbump] at hsplit
      obtain rfl : rest = front ++ back := hsplit
      refine ⟨b :: front, back, hrest, ?_, .inr ⟨ascii_char b, [], _, rfl, hb, by decide,
        hrun⟩, fun e behind he heq => ?_⟩
      · rw [if_neg Bool.false_ne_true, hstop, hbump]
        simp only [List.length_cons, Cursor.mk.injEq, and_true]
        omega
      · obtain ⟨marker, sign, run, rfl, -, hsigns, hother⟩ := he
        rw [htext] at heq
        have hbehind : sign ++ run ++ behind = text_at c.bump := (List.cons.inj heq).2
        simp only [List.mem_cons, List.not_mem_nil, or_false] at hsigns
        obtain rfl | hsigns := hsigns
        · have hle := (hmax run behind hother hbehind).1
          simpa using hle
        · have hnosign := peek_nth_any c.bump 0 is_sign_eq
          rw [show c.bump.peek_nth 0 = c.bump.peek from rfl, hsign, ← hbehind] at hnosign
          obtain rfl | rfl := hsigns <;> simp [is_sign_char] at hnosign
  · rename_i hnone
    refine ⟨[], c.rest, rfl, rfl, .inl rfl, fun e behind he heq => ?_⟩
    exact absurd (exponent_of_text hplain he heq) hnone

/-! ## Integers behind a marker -/

theorem text_at_cons {c : Cursor} {d : Char} {tail : List Char} (h : text_at c = d :: tail) :
    ∃ b rest, c.rest = b :: rest ∧ ascii_char b = d ∧ rest.map ascii_char = tail := by
  unfold text_at at h
  cases hrest : c.rest with
  | nil => simp [hrest] at h
  | cons b rest => exact ⟨b, rest, rfl, by simpa [hrest] using h⟩

/-- The radix that the marker announces. -/
def marked_radix (features : FeatureSet) (marker : UInt8) : Option Radix :=
  if (marker == ascii 'x' || marker == ascii 'X') && features.numeric_literals.hex_integers then
    some .Hex
  else if (marker == ascii 'o' || marker == ascii 'O') &&
      features.numeric_literals.octal_integers then
    some .Octal
  else if (marker == ascii 'b' || marker == ascii 'B') &&
      features.numeric_literals.binary_integers then
    some .Binary
  else none

/-- The digits of the radix open behind the marker. -/
def opens_body (features : FeatureSet) (radix : Radix) (c : Cursor) : Bool :=
  (c.peek_nth 2).any radix.is_digit ||
    features.numeric_literals.underscore_separators &&
      features.numeric_literals.radix_leading_underscore &&
        c.peek_nth 2 == some (ascii '_') && (c.peek_nth 3).any radix.is_digit

theorem radix_prefix_eq (c : Cursor) :
    radix_prefix features c =
      if c.peek = some (ascii '0') then
        (c.peek_nth 1).bind fun marker => (marked_radix features marker).bind fun radix =>
          if opens_body features radix c then some radix else none
      else none := by
  unfold radix_prefix
  by_cases hpeek : c.peek = some (ascii '0')
  · simp only [hpeek, bne_self_eq_false, Bool.false_eq_true, if_false, if_true]
    show (c.peek_nth 1).bind _ = _
    congr 1
    funext marker
    have hopens (radix : Radix) : ((c.peek_nth 2).bind fun first =>
        if (radix.is_digit first || features.numeric_literals.underscore_separators &&
            features.numeric_literals.radix_leading_underscore && first == ascii '_' &&
              (c.peek_nth 3).any radix.is_digit) = true then some radix else none) =
        if opens_body features radix c then some radix else none := by
      unfold opens_body
      cases c.peek_nth 2 <;> simp
    simp only [Option.bind_eq_bind, Option.bind_some, Option.bind_none, hopens, marked_radix]
    split_ifs <;> simp_all
  · simp [hpeek]

theorem marked_radix_iff {m : SourceByte} {radix : Radix} :
    marked_radix features m.byte = some radix ↔
      ascii_char m ∈ radix_markers radix ∧ radix_enabled features radix = true := by
  unfold marked_radix
  rw [byte_eq_ascii (by decide), byte_eq_ascii (by decide), byte_eq_ascii (by decide),
    byte_eq_ascii (by decide), byte_eq_ascii (by decide), byte_eq_ascii (by decide)]
  generalize ascii_char m = marker
  cases radix <;> simp only [radix_markers, radix_enabled, List.mem_cons, List.not_mem_nil,
    or_false, Bool.and_eq_true, Bool.or_eq_true, beq_iff_eq] <;> grind

theorem opens_body_iff {c : Cursor} {radix : Radix} :
    opens_body features radix c = true ↔
      (text_at c)[2]?.any (radix_digit radix) = true ∨
        features.numeric_literals.underscore_separators = true ∧
          features.numeric_literals.radix_leading_underscore = true ∧
            (text_at c)[2]? = some '_' ∧ (text_at c)[3]?.any (radix_digit radix) = true := by
  unfold opens_body
  rw [peek_nth_any c 2 (radix_digit_char radix), peek_nth_any c 3 (radix_digit_char radix),
    peek_nth_eq_iff (by decide)]
  simp only [Bool.or_eq_true, Bool.and_eq_true, beq_iff_eq, and_assoc]

theorem radix_digit_separator (radix : Radix) : radix_digit radix '_' = false := by
  cases radix <;> decide

theorem RadixBody.tail {radix : Radix} {body : List Char} (h : RadixBody features radix body) :
    DigitTail (radix_digit radix) features.numeric_literals.underscore_separators body := by
  obtain h | ⟨-, hseparators, _, rfl, d, rest, rfl, hd, hrest⟩ := h
  · exact DigitRun.tail h
  · exact .separator hseparators hd hrest

/-- A number of a radix has its marker. -/
theorem radix_prefix_of_number {c : Cursor} {radix : Radix} {marker : Char} {body behind : List Char}
    (henabled : radix_enabled features radix = true) (hmarker : marker ∈ radix_markers radix)
    (hbody : RadixBody features radix body) (heq : '0' :: marker :: body ++ behind = text_at c) :
    radix_prefix features c = some radix := by
  obtain ⟨z, rest, hrest, hz, hbehind⟩ := text_at_cons heq.symm
  cases rest with
  | nil => cases hbehind
  | cons m rest =>
    obtain ⟨hm, -⟩ := List.cons.inj hbehind
    have hpeek : c.peek = some (ascii '0') := by
      rw [ascii_char_eq_iff (by decide)] at hz
      simp [Cursor.peek, Cursor.peek_nth, hrest, hz]
    have hone : c.peek_nth 1 = some m.byte := by simp [Cursor.peek_nth, hrest]
    have hopens : opens_body features radix c = true := by
      rw [opens_body_iff, ← heq]
      obtain ⟨d, tail, rfl, hd, -⟩ | ⟨hleading, hseparators, _, rfl, d, tail, rfl, hd, -⟩ := hbody
      · exact .inl (by simpa using hd)
      · exact .inr ⟨hseparators, hleading, rfl, by simpa using hd⟩
    have hmarked : marked_radix features m.byte = some radix :=
      marked_radix_iff.mpr ⟨by rwa [hm], henabled⟩
    rw [radix_prefix_eq, if_pos hpeek, hone, Option.bind_some, hmarked, Option.bind_some,
      if_pos hopens]

/-- Behind a marker no decimal number is longer than the zero in front of it. -/
theorem decimal_before_marker {radix : Radix} {marker : Char} {tail other behind : List Char}
    {shape : NumberShape} (hmarker : marker ∈ radix_markers radix)
    (h : Mantissa features shape other) (heq : other ++ behind = '0' :: marker :: tail) :
    other = ['0'] ∧ behind = marker :: tail := by
  have hplain : marker.isDigit = false ∧ marker ≠ '_' ∧ marker ≠ '.' := by
    cases radix <;> simp only [radix_markers, List.mem_cons, List.not_mem_nil, or_false] at hmarker <;>
      obtain rfl | rfl := hmarker <;> decide
  have hzero : DigitTail Char.isDigit features.numeric_literals.underscore_separators ['0'] :=
    .digit rfl .nil
  have hstops : TailStops Char.isDigit features.numeric_literals.underscore_separators
      (marker :: tail) := tailStops_cons hplain.1 hplain.2.1
  have hpoint (rest : List Char) : TailStops Char.isDigit
      features.numeric_literals.underscore_separators ('.' :: rest) :=
    tailStops_cons rfl (by decide)
  cases h with
  | whole h =>
    have hle := (DigitRun.tail h).length_le rfl hzero hstops heq
    obtain ⟨d, rest, rfl, -⟩ := h
    obtain ⟨rfl, hrest⟩ := List.cons.inj heq
    obtain rfl : rest = [] := List.length_eq_zero_iff.mp (by simpa using hle)
    exact ⟨rfl, hrest⟩
  | @point whole fraction hwhole hfraction =>
    have hsplit : whole ++ '.' :: (fraction ++ behind) = ['0'] ++ marker :: tail := by
      rw [List.singleton_append, ← heq]
      simp
    have hunique := (DigitRun.tail hwhole).unique rfl hzero (hpoint _) hstops hsplit
    exact absurd (List.cons.inj hunique.2).1.symm hplain.2.2
  | leading_point h => exact absurd (List.cons.inj heq).1 (by decide)

theorem marker_no_exponent {radix : Radix} {marker : Char} (h : marker ∈ radix_markers radix) :
    marker ∉ ['e', 'E'] := by
  cases radix <;> simp only [radix_markers, List.mem_cons, List.not_mem_nil, or_false] at h <;>
    obtain rfl | rfl := h <;> decide

theorem radix_markers_disjoint {radix radix' : Radix} {marker : Char}
    (h : marker ∈ radix_markers radix) (h' : marker ∈ radix_markers radix') : radix' = radix := by
  cases radix <;> cases radix' <;> first | rfl | skip
  all_goals
    simp only [radix_markers, List.mem_cons, List.not_mem_nil, or_false] at h h'
    obtain rfl | rfl := h <;> revert h' <;> decide

/-- Digits that open behind a marker are those of a number. -/
theorem RadixBody.of_tail {radix : Radix} {front back : List Char}
    (htail : DigitTail (radix_digit radix) features.numeric_literals.underscore_separators front)
    (hstops : TailStops (radix_digit radix) features.numeric_literals.underscore_separators back)
    (hopens : (front ++ back)[0]?.any (radix_digit radix) = true ∨
      features.numeric_literals.underscore_separators = true ∧
        features.numeric_literals.radix_leading_underscore = true ∧
          (front ++ back)[0]? = some '_' ∧ (front ++ back)[1]?.any (radix_digit radix) = true) :
    RadixBody features radix front := by
  cases htail with
  | nil =>
    exfalso
    rw [List.nil_append] at hopens
    obtain hfirst | ⟨hseparators, -, hfirst, hsecond⟩ := hopens
    · cases back with
      | nil => cases hfirst
      | cons d tail => exact absurd hfirst (by simp [hstops.1 d tail rfl])
    · match back, hfirst, hsecond with
      | [d], _, hsecond => cases hsecond
      | d :: e :: tail, hfirst, hsecond =>
        obtain rfl : d = '_' := Option.some.inj hfirst
        exact absurd hsecond (by simp [hstops.2 e tail hseparators rfl])
  | digit hc htail => exact .inl ⟨_, _, rfl, hc, htail⟩
  | separator hseparators hc htail =>
    obtain hfirst | ⟨-, hleading, -⟩ := hopens
    · exact absurd hfirst (by simp [radix_digit_separator])
    · exact .inr ⟨hleading, hseparators, _, rfl, _, _, rfl, hc, htail⟩

/-- Behind a marker the scanner takes the longest number of the radix. -/
theorem eat_radix_longest {c : Cursor} {radix : Radix} (h : radix_prefix features c = some radix) :
    ∃ front back, c.rest = front ++ back ∧
      eat_radix_digits c.bump.bump radix features.numeric_literals.underscore_separators =
        ⟨c.pos + front.length, back⟩ ∧
      IsNumber features (.Radix radix) (front.map ascii_char) ∧
      ∀ shape other behind, IsNumber features shape other → other ++ behind = text_at c →
        other.length ≤ front.length := by
  rw [radix_prefix_eq] at h
  split at h
  case isFalse => cases h
  rename_i hpeek
  obtain ⟨marker, hone, h⟩ := Option.bind_eq_some_iff.mp h
  obtain ⟨radix', hmarked, h⟩ := Option.bind_eq_some_iff.mp h
  obtain ⟨hopens, rfl⟩ : opens_body features radix' c = true ∧ radix' = radix := by
    simpa using h
  rw [opens_body_iff] at hopens
  -- the zero, the marker and what stands behind them
  match hrest : c.rest with
  | [] => simp [Cursor.peek, Cursor.peek_nth, hrest] at hpeek
  | [z] => simp [Cursor.peek_nth, hrest] at hone
  | z :: m :: rest =>
    have hzero : ascii_char z = '0' := by
      rw [ascii_char_eq_iff (by decide)]
      simpa [Cursor.peek, Cursor.peek_nth, hrest] using hpeek
    obtain rfl : m.byte = marker := by simpa [Cursor.peek_nth, hrest] using hone
    obtain ⟨hmarker, henabled⟩ := marked_radix_iff.mp hmarked
    have htext : text_at c = '0' :: ascii_char m :: rest.map ascii_char := by
      rw [text_at, hrest, List.map_cons, List.map_cons, hzero]
    obtain ⟨front, back, hsplit, hstop, htail, hstops⟩ := eat_radix_run_tail radix'
      features.numeric_literals.underscore_separators (c.pos + 2) rest
    have hbump : c.bump.bump = ⟨c.pos + 2, rest⟩ := by simp [Cursor.bump, hrest]
    have hbody : RadixBody features radix' (front.map ascii_char) := by
      rw [htext, hsplit, List.map_append] at hopens
      exact .of_tail htail hstops hopens
    refine ⟨z :: m :: front, back, by rw [hsplit]; rfl, ?_, ?_, fun shape other behind hother heq => ?_⟩
    · rw [hbump, eat_radix_digits, hstop]
      simp only [List.length_cons, Cursor.mk.injEq, and_true]
      omega
    · rw [List.map_cons, List.map_cons, hzero]
      exact .radix henabled hmarker hbody
    · rw [htext] at heq
      simp only [List.length_cons]
      cases hother with
      | @radix radix marker body _ hmarker' hbody' =>
        obtain ⟨rfl, hbehind⟩ := List.cons.inj (List.cons.inj heq).2
        obtain rfl := radix_markers_disjoint hmarker hmarker'
        have hle := hbody'.tail.length_le (radix_digit_separator radix) htail hstops
          (hbehind.trans (by rw [hsplit, List.map_append]))
        simpa using hle
      | decimal h =>
        obtain ⟨rfl, -⟩ := decimal_before_marker hmarker h heq
        exact Nat.succ_le_succ (Nat.zero_le _)
      | @scientific inner mantissa exponent h hexponent =>
        obtain ⟨mark, sign, run, rfl, hmark, -⟩ := hexponent
        rw [List.append_assoc] at heq
        obtain ⟨-, hbehind⟩ := decimal_before_marker hmarker h heq
        rw [(List.cons.inj hbehind).1] at hmark
        exact absurd hmark (marker_no_exponent hmarker)

/-! ## Numbers -/

/-- The scanner takes the longest number at the cursor. -/
theorem eat_number_longest (hplain : PlainDigits features) {c : Cursor}
    (hstarts : NumberStarts features c) :
    ∃ shape front back, c.rest = front ++ back ∧
      eat_number features c = ⟨c.pos + front.length, back⟩ ∧
      IsNumber features shape (front.map ascii_char) ∧
      ∀ shape' other behind, IsNumber features shape' other → other ++ behind = text_at c →
        other.length ≤ front.length := by
  unfold eat_number
  dsimp only
  cases hprefix : radix_prefix features c with
  | some radix =>
    obtain ⟨front, back, hlongest⟩ := eat_radix_longest hprefix
    exact ⟨.Radix radix, front, back, hlongest⟩
  | none =>
    obtain ⟨shape, front, back, htakes, hstop⟩ := eat_fixed_point_takes hplain hstarts
    obtain ⟨exponent, stop, hsplit, hstop', hexponent, hlongest⟩ :=
      eat_exponent_takes hplain ⟨c.pos + front.length, back⟩
    obtain rfl : back = exponent ++ stop := hsplit
    dsimp only
    rw [hstop, hstop']
    have hlength : (front ++ exponent).length = front.length + exponent.length := List.length_append
    have hnumber : ∃ shape', IsNumber features shape' ((front ++ exponent).map ascii_char) := by
      obtain rfl | hexponent := hexponent
      · exact ⟨shape, by rw [List.append_nil]; exact .decimal htakes.mantissa⟩
      · exact ⟨.Fractional, by rw [List.map_append]; exact .scientific htakes.mantissa hexponent⟩
    obtain ⟨shape', hnumber⟩ := hnumber
    refine ⟨shape', front ++ exponent, stop, by rw [htakes.split, List.append_assoc], ?_, hnumber,
      fun other_shape other behind hother heq => ?_⟩
    · rw [hlength, Nat.add_assoc]
    · rw [hlength]
      cases hother with
      | radix henabled hmarker hbody =>
        rw [radix_prefix_of_number henabled hmarker hbody heq] at hprefix
        cases hprefix
      | decimal h => exact (htakes.longest _ _ _ h heq).trans (Nat.le_add_right _ _)
      | @scientific inner mantissa other_exponent h hother =>
        obtain ⟨marker, sign, run, hcons, hmarker, hsign⟩ := hother
        have hstart : mantissa ++ marker :: (sign ++ run ++ behind) = text_at c := by
          rw [← heq, hcons]
          simp
        obtain ⟨rfl, hbehind⟩ := htakes.alone _ _ _ _ h hmarker hstart
        have hle := hlongest other_exponent behind ⟨marker, sign, run, hcons, hmarker, hsign⟩ (by
          rw [text_at, ← hbehind, hcons]
          simp)
        rw [List.length_append, List.length_map]
        omega

end squonk.tokenizer.scan
