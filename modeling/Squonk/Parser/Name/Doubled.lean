import Mathlib
import Squonk.Parser.Name
import Squonk.Tokenizer.Quoted

/-!
# Doubled delimiters

Between its delimiters a text with doubled delimiters is scanned to its end, except where a
backslash escapes the first one of a pair: then the scan ends in front of a delimiter without a
partner, or not at all.
-/

open squonk.dialect squonk.tokenizer

namespace squonk.parser.name

/-- Whether no backslash of the text escapes the delimiter or what comes behind the text. -/
def settled (delim : Char) : List Char → Bool
  | [] => true
  | [c] => c != backslash
  | c :: d :: rest =>
    if c == backslash then d != delim && settled delim rest else settled delim (d :: rest)

example : settled single_quote "a\\\\b".toList = true ∧ settled single_quote "a\\'b".toList = false :=
  ⟨rfl, rfl⟩

theorem settled_cons_of_ne {delim c : Char} (hc : c ≠ backslash) (text : List Char) :
    settled delim (c :: text) = settled delim text := by
  cases text with
  | nil => simpa [settled] using hc
  | cons d text =>
    rw [settled, if_neg (by simpa using hc)]

theorem settled_escape (delim d : Char) (text : List Char) :
    settled delim (backslash :: d :: text) = (d != delim && settled delim text) := by
  rw [settled, if_pos (beq_self_eq_true _)]

theorem undouble_pair (delim : Char) (text : List Char) :
    undouble delim (delim :: delim :: text) = delim :: undouble delim text := by
  rw [undouble, beq_self_eq_true, Bool.and_self, if_pos rfl]

theorem head_undouble (delim : Char) (text : List Char) :
    ∃ rest, undouble delim (delim :: text) = delim :: rest := by
  cases text with
  | nil => exact ⟨[], rfl⟩
  | cons d text =>
    rw [undouble]
    split
    · exact ⟨_, rfl⟩
    · exact ⟨_, rfl⟩

theorem undouble_unpaired {delim c d : Char} (h : ¬ (c = delim ∧ d = delim)) (text : List Char) :
    undouble delim (c :: d :: text) = c :: undouble delim (d :: text) := by
  rw [undouble, if_neg (by simpa using h)]

/-- Whether a text is settled does not depend on its pairs of delimiters. -/
theorem settled_undouble {delim : Char} (hdelim : delim ≠ backslash) (text : List Char) :
    settled delim (undouble delim text) = settled delim text := by
  induction hsize : text.length using Nat.strong_induction_on generalizing text with
  | h n ih =>
    match text with
    | [] => rfl
    | [c] => rfl
    | c :: d :: rest =>
      simp only [List.length_cons] at hsize
      have hrest := ih rest.length (by omega) rest rfl
      have hbehind := ih (d :: rest).length (by simp only [List.length_cons]; omega) (d :: rest) rfl
      by_cases hc : c = backslash
      · subst hc
        rw [undouble_cons_of_ne hdelim.symm, settled_escape]
        by_cases hd : d = delim
        · subst hd
          obtain ⟨rest', hrest'⟩ := head_undouble d rest
          rw [hrest', settled_escape, bne_self_eq_false, Bool.false_and, Bool.false_and]
        · rw [undouble_cons_of_ne hd, settled_escape, hrest]
      · by_cases hpair : c = delim ∧ d = delim
        · obtain ⟨rfl, rfl⟩ := hpair
          rw [undouble_pair, settled_cons_of_ne hc, settled_cons_of_ne hc,
            settled_cons_of_ne hc, hrest]
        · rw [undouble_unpaired hpair, settled_cons_of_ne hc, settled_cons_of_ne hc, hbehind]

/-! ## Steps of the scanner -/

section
variable {close : Char} {escapes : Bool} (hclose : close ≠ backslash)

theorem scan_plain {c : Char} (hc : c ≠ close) (hescape : (c == backslash && escapes) = false)
    (cs : List Char) :
    scan_quoted_body close escapes (c :: cs) =
      (scan_quoted_body close escapes cs).map fun (body, rest) => (c :: body, rest) := by
  rw [scan_quoted_body.eq_def]
  simp only [hescape, Bool.false_eq_true, if_false, beq_eq_false_iff_ne.mpr hc]

theorem scan_escape (d : Char) (cs : List Char) :
    scan_quoted_body close true (backslash :: d :: cs) =
      (scan_quoted_body close true cs).map fun (body, rest) => (backslash :: d :: body, rest) := by
  rw [scan_quoted_body.eq_def]
  simp only [beq_self_eq_true, Bool.and_self, if_true]

include hclose

theorem scan_pair (cs : List Char) :
    scan_quoted_body close escapes (close :: close :: cs) =
      (scan_quoted_body close escapes cs).map fun (body, rest) =>
        (close :: close :: body, rest) := by
  have hne : (close == backslash) = false := beq_eq_false_iff_ne.mpr hclose
  rw [scan_quoted_body.eq_def]
  simp only [hne, Bool.false_and, Bool.false_eq_true, if_false, beq_self_eq_true, if_true]

theorem scan_close {rest : List Char} (hrest : rest.head? ≠ some close) :
    scan_quoted_body close escapes (close :: rest) = some ([close], rest) := by
  have hne : (close == backslash) = false := beq_eq_false_iff_ne.mpr hclose
  rw [scan_quoted_body.eq_def]
  simp only [hne, Bool.false_and, Bool.false_eq_true, if_false, beq_self_eq_true, if_true]
  cases rest with
  | nil => rfl
  | cons d rest =>
    have hd : (d == close) = false := by
      rw [beq_eq_false_iff_ne]
      rintro rfl
      exact hrest rfl
    simp only [hd, Bool.false_eq_true, if_false]

/-! ## Texts that are scanned to their end -/

/-- Without escapes every text with doubled delimiters is. -/
theorem scan_double (text : List Char) :
    scan_quoted_body close false (double close text ++ [close]) =
      some (double close text ++ [close], []) := by
  induction text with
  | nil => exact scan_close hclose (by simp)
  | cons c text ih =>
    by_cases hc : c = close
    · rw [hc, double_cons_self, List.cons_append, List.cons_append, scan_pair hclose, ih]
      rfl
    · rw [double_cons_of_ne hc, List.cons_append, scan_plain hc (Bool.and_false _), ih]
      rfl

/-- With escapes every settled text is. -/
theorem scan_double_of_settled (text : List Char) (h : settled close text = true) :
    scan_quoted_body close true (double close text ++ [close]) =
      some (double close text ++ [close], []) := by
  fun_induction settled close text with
  | case1 => exact scan_close hclose (by simp)
  | case2 c =>
    have hescape : (c == backslash && true) = false := by
      rw [Bool.and_true]
      simpa using h
    by_cases hc : c = close
    · rw [hc, double_cons_self, List.cons_append, List.cons_append, scan_pair hclose]
      exact congrArg _ (scan_close hclose (by simp))
    · rw [double_cons_of_ne hc, List.cons_append, scan_plain hc hescape]
      exact congrArg _ (scan_close hclose (by simp))
  | case3 c d rest hc ih =>
    obtain rfl := beq_iff_eq.mp hc
    simp only [Bool.and_eq_true, bne_iff_ne] at h
    rw [double_cons_of_ne hclose.symm, double_cons_of_ne h.1, List.cons_append, List.cons_append,
      scan_escape, ih h.2]
    rfl
  | case4 c d rest hc ih =>
    have hescape : (c == backslash && true) = false := by
      rw [Bool.and_true]
      exact Bool.eq_false_of_not_eq_true hc
    by_cases hpair : c = close
    · rw [hpair, double_cons_self, List.cons_append, List.cons_append, scan_pair hclose, ih h]
      rfl
    · rw [double_cons_of_ne hpair, List.cons_append, scan_plain hpair hescape, ih h]
      rfl

/-! ## Texts that are not -/

/-- A text with doubled delimiters and one more behind it. -/
def Trailing (close : Char) (cs : List Char) : Prop :=
  ∃ text, cs = double close text ++ [close]

/-- Behind one delimiter without a partner the scan ends in front of one. -/
theorem trailing_of_odd (text : List Char) {body rest : List Char}
    (h : scan_quoted_body close escapes (close :: (double close text ++ [close])) =
      some (body, rest)) : Trailing close rest := by
  induction text generalizing body with
  | nil =>
    rw [double, List.flatMap_nil, List.nil_append, scan_pair hclose] at h
    cases h
  | cons c text ih =>
    by_cases hc : c = close
    · rw [hc, double_cons_self, List.cons_append, List.cons_append, scan_pair hclose] at h
      obtain ⟨⟨body', rest'⟩, hbody, heq⟩ := Option.map_eq_some_iff.mp h
      cases heq
      exact ih hbody
    · rw [scan_close hclose (by rw [double_cons_of_ne hc]; simpa using hc)] at h
      cases h
      exact ⟨c :: text, rfl⟩

theorem trailing_of_unsettled (text : List Char) (hsettled : settled close text = false)
    {body rest : List Char}
    (h : scan_quoted_body close true (double close text ++ [close]) = some (body, rest)) :
    Trailing close rest := by
  fun_induction settled close text generalizing body with
  | case1 => cases hsettled
  | case2 c =>
    obtain rfl : c = backslash := by simpa using hsettled
    rw [double_cons_of_ne hclose.symm, List.cons_append] at h
    rw [double, List.flatMap_nil, List.nil_append, scan_escape] at h
    cases h
  | case3 c d rest' hc ih =>
    obtain rfl := beq_iff_eq.mp hc
    rw [double_cons_of_ne hclose.symm, List.cons_append] at h
    by_cases hd : d = close
    · rw [hd, double_cons_self, List.cons_append, List.cons_append, scan_escape] at h
      obtain ⟨⟨body', behind⟩, hbody, heq⟩ := Option.map_eq_some_iff.mp h
      cases heq
      exact trailing_of_odd hclose rest' hbody
    · rw [double_cons_of_ne hd, List.cons_append, scan_escape] at h
      obtain ⟨⟨body', behind⟩, hbody, heq⟩ := Option.map_eq_some_iff.mp h
      cases heq
      have hne : (d != close) = true := bne_iff_ne.mpr hd
      rw [hne, Bool.true_and] at hsettled
      exact ih hsettled hbody
  | case4 c d rest' hc ih =>
    have hescape : (c == backslash && true) = false := by
      rw [Bool.and_true]
      exact Bool.eq_false_of_not_eq_true hc
    by_cases hpair : c = close
    · rw [hpair, double_cons_self, List.cons_append, List.cons_append, scan_pair hclose] at h
      obtain ⟨⟨body', behind⟩, hbody, heq⟩ := Option.map_eq_some_iff.mp h
      cases heq
      exact ih hsettled hbody
    · rw [double_cons_of_ne hpair, List.cons_append, scan_plain hpair hescape] at h
      obtain ⟨⟨body', behind⟩, hbody, heq⟩ := Option.map_eq_some_iff.mp h
      cases heq
      exact ih hsettled hbody

/-- A segment in other delimiters ends between two pairs. -/
theorem trailing_of_other {delim : Char} (hne : delim ≠ close) (hdelim : delim ≠ backslash)
    (text : List Char) {body rest : List Char}
    (h : scan_quoted_body close true (double delim text ++ [delim]) = some (body, rest)) :
    Trailing delim rest := by
  have hplain : (delim == backslash && true) = false := by
    rw [Bool.and_true]
    exact beq_eq_false_iff_ne.mpr hdelim
  induction hsize : text.length using Nat.strong_induction_on generalizing text body with
  | h n ih =>
    cases text with
    | nil =>
      rw [double, List.flatMap_nil, List.nil_append, scan_plain hne hplain] at h
      cases h
    | cons c text =>
      rw [List.length_cons] at hsize
      have htext {body : List Char} (h : scan_quoted_body close true (double delim text ++ [delim]) =
          some (body, rest)) : Trailing delim rest := ih text.length (by omega) text h rfl
      by_cases hc : c = delim
      · rw [hc, double_cons_self, List.cons_append, List.cons_append, scan_plain hne hplain,
          scan_plain hne hplain] at h
        obtain ⟨⟨body', behind⟩, hbody, heq⟩ := Option.map_eq_some_iff.mp h
        cases heq
        obtain ⟨⟨body', behind⟩, hbody, heq⟩ := Option.map_eq_some_iff.mp hbody
        cases heq
        exact htext hbody
      rw [double_cons_of_ne hc, List.cons_append] at h
      by_cases hback : c = backslash
      · subst hback
        cases text with
        | nil =>
          rw [double, List.flatMap_nil, List.nil_append, scan_escape] at h
          cases h
        | cons d text =>
          rw [List.length_cons] at hsize
          by_cases hd : d = delim
          · rw [hd, double_cons_self, List.cons_append, List.cons_append, scan_escape,
              scan_plain hne hplain] at h
            obtain ⟨⟨body', behind⟩, hbody, heq⟩ := Option.map_eq_some_iff.mp h
            cases heq
            obtain ⟨⟨body', behind⟩, hbody, heq⟩ := Option.map_eq_some_iff.mp hbody
            cases heq
            exact ih text.length (by omega) text hbody rfl
          · rw [double_cons_of_ne hd, List.cons_append, scan_escape] at h
            obtain ⟨⟨body', behind⟩, hbody, heq⟩ := Option.map_eq_some_iff.mp h
            cases heq
            exact ih text.length (by omega) text hbody rfl
      by_cases hend : c = close
      · subst hend
        cases text with
        | nil =>
          rw [double, List.flatMap_nil, List.nil_append,
            scan_close hclose (by simpa using hne)] at h
          cases h
          exact ⟨[], rfl⟩
        | cons d text =>
          rw [List.length_cons] at hsize
          by_cases hd : d = c
          · rw [hd, double_cons_of_ne hc, List.cons_append, scan_pair hclose] at h
            obtain ⟨⟨body', behind⟩, hbody, heq⟩ := Option.map_eq_some_iff.mp h
            cases heq
            exact ih text.length (by omega) text hbody rfl
          · have hhead : (double delim (d :: text) ++ [delim]).head? ≠ some c := by
              by_cases hdd : d = delim
              · rw [hdd, double_cons_self]
                simpa using hne
              · rw [double_cons_of_ne hdd]
                simpa using hd
            rw [scan_close hclose hhead] at h
            cases h
            exact ⟨d :: text, rfl⟩
      · have hescape : (c == backslash && true) = false := by
          rw [Bool.and_true]
          exact beq_eq_false_iff_ne.mpr hback
        rw [scan_plain hend hescape] at h
        obtain ⟨⟨body', behind⟩, hbody, heq⟩ := Option.map_eq_some_iff.mp h
        cases heq
        exact htext hbody

end

theorem Trailing.ne_nil {close : Char} {cs : List Char} (h : Trailing close cs) : cs ≠ [] := by
  obtain ⟨text, rfl⟩ := h
  simp

end squonk.parser.name
