import Squonk.Dialect.Presets
import Squonk.Parser.Clause.AccessControl.RoundTrip

/-!
# `GRANT` and `REVOKE` are dual

What stands in front of the grantees is read alike by both statements, whichever of the two words
separates it from them.
-/

open squonk.ast squonk.tokenizer squonk.dialect listing listing.Reader

namespace squonk.parser.clause.access_control

variable {T : Type} {features : FeatureSet} {syntaxes : AccessControlSyntax}
  {parse_data_type : ParseResult T} {ts mid rest behind : List Token}

/-- What stands behind a statement is led by no word and no dot. -/
def Ended (rest : List Token) : Prop :=
  ∀ t, rest.head? = some t → spelled t = none ∧ t ≠ .punctuation .Dot

/-! ## Tails -/

theorem ended_no_word (hend : Ended rest) (word : String) :
    rest.head?.any (token_is_contextual_keyword word) = false := by
  cases hhead : rest.head? with
  | none => rfl
  | some t =>
    rw [Option.any_some, token_is_contextual_keyword, (hend t hhead).1]
    rfl

theorem ended_eat (hend : Ended rest) (word : String) :
    eat_contextual_keyword word rest = .ok (false, rest) :=
  accept_apply_false (ended_no_word hend word)

theorem with_option_ended (hend : Ended rest) (middle : String) :
    parse_with_option middle rest = .ok (false, rest) := by
  rw [parse_with_option, bind_apply, ended_eat hend]
  rfl

theorem with_option_absent {middle : String}
    (h : parse_with_option middle ts = .ok (false, rest)) : ts = rest := by
  obtain ⟨⟨taken, mid⟩, heat, h⟩ := bind_eq_ok.mp h
  cases taken with
  | true =>
    obtain ⟨⟨⟨⟩, _⟩, -, h⟩ := bind_eq_ok.mp h
    obtain ⟨⟨⟨⟩, _⟩, -, heq⟩ := bind_eq_ok.mp h
    cases heq
  | false =>
    cases h
    exact (accept_eq_false heat).2

theorem granted_by_ended (hend : Ended rest) :
    parse_granted_by features rest = .ok (none, rest) := by
  rw [parse_granted_by, bind_apply, ended_eat hend]
  rfl

theorem granted_by_absent (h : parse_granted_by features ts = .ok (none, rest)) : ts = rest := by
  obtain ⟨⟨taken, mid⟩, heat, h⟩ := bind_eq_ok.mp h
  cases taken with
  | true =>
    obtain ⟨⟨⟨⟩, _⟩, -, h⟩ := bind_eq_ok.mp h
    obtain ⟨⟨_, _⟩, -, heq⟩ := bind_eq_ok.mp h
    cases heq
  | false =>
    cases h
    exact (accept_eq_false heat).2

theorem behavior_ended (hend : Ended rest) : parse_revoke_behavior rest = .ok (none, rest) := by
  have hnone : rest.head?.bind (table_value revoke_behaviors) = none := by
    cases hhead : rest.head? with
    | none => rfl
    | some t =>
      cases hvalue : table_value revoke_behaviors t with
      | none => exact hvalue
      | some behavior =>
        obtain ⟨word, -, hspelled⟩ := table_value_eq_some hvalue
        rw [(hend t hhead).1] at hspelled
        cases hspelled
  rw [parse_revoke_behavior, optional_token_apply, hnone]
  rfl

theorem behavior_absent (h : parse_revoke_behavior ts = .ok (none, rest)) : ts = rest := by
  rw [parse_revoke_behavior, optional_token_apply] at h
  obtain ⟨hnone, hrest⟩ := Prod.mk.inj (Except.ok.inj h)
  rw [hnone] at hrest
  exact hrest

theorem expect_eq_ok {word : String} (h : expect_contextual_keyword word ts = .ok ((), rest)) :
    ∃ t, ts = t :: rest ∧ spelled t = some word.toList := by
  obtain ⟨⟨taken, mid⟩, heat, h⟩ := bind_eq_ok.mp h
  cases taken with
  | false => cases h
  | true =>
    cases h
    obtain ⟨t, rfl, htest⟩ := accept_eq_true heat
    exact ⟨t, rfl, beq_iff_eq.mp htest⟩

theorem roles_apply {elements : List GrantElement} {roles : List Ident}
    (h : roles_from_elements elements ts = .ok (roles, rest)) (ts' : List Token) :
    roles_from_elements elements ts' = .ok (roles, ts') := by
  cases hcolumns : elements.any fun element => !element.columns.isEmpty with
  | true =>
    rw [roles_from_elements, hcolumns] at h
    cases h
  | false =>
    rw [roles_from_elements, hcolumns, if_neg Bool.false_ne_true] at h ⊢
    cases h
    rfl

/-! ## Heads -/

/-- The privileges and the object that are read, and what stands behind them. -/
def ReadsPrivileges (features : FeatureSet) (syntaxes : AccessControlSyntax)
    (parse_data_type : ParseResult T) (ts : List Token) (privileges : Privileges)
    (object : GrantObject T) (behind : List Token) : Prop :=
  ∃ elements mid, parse_grant_element_list features ts = .ok (elements, mid) ∧
    peek_is_contextual_keyword "on" mid = true ∧
    privileges = privileges_from_elements elements ∧
    parse_grant_object features syntaxes parse_data_type mid = .ok (object, behind)

/-- The roles that are read, and what stands behind them. -/
def ReadsRoles (features : FeatureSet) (ts : List Token) (roles : List Ident)
    (behind : List Token) : Prop :=
  ∃ elements, parse_grant_element_list features ts = .ok (elements, behind) ∧
    roles_from_elements elements behind = .ok (roles, behind)

section
variable {privileges : Privileges} {object : GrantObject T} {roles : List Ident}
  {front more : List Token} {t t' : Token} {separator separator' : String}

/-- The word in front of the grantees may be another of the separators. -/
theorem ReadsPrivileges.respell (hfixed : Fixed (parse_arg_types parse_data_type))
    (ht : spelled t = some separator.toList) (ht' : spelled t' = some separator'.toList)
    (hmem : separator ∈ separators) (hmem' : separator' ∈ separators)
    (h : ReadsPrivileges features syntaxes parse_data_type (front ++ t :: more) privileges object
      (t :: more)) :
    ReadsPrivileges features syntaxes parse_data_type (front ++ t' :: more) privileges object
      (t' :: more) := by
  obtain ⟨elements, mid, helements, hon, hprivileges, hobject⟩ := h
  obtain ⟨used, hone⟩ := rewrites_privileges helements
  obtain ⟨used', _, htwo, -⟩ := rewrites_grant_object (fun _ => []) hfixed hobject
  have halike : Same (t :: more).head? (t' :: more).head? := alike_separators ht ht' hmem hmem'
  have hfront : front = used ++ used' := by
    have hsplit := hone.split
    rw [htwo.split, ← List.append_assoc] at hsplit
    exact List.append_cancel_right hsplit
  have hmid : Same mid.head? (used' ++ t' :: more).head? := (htwo.front _ halike).1
  refine ⟨elements, used' ++ t' :: more, ?_, ?_, hprivileges, htwo.source _ halike⟩
  · rw [hfront, List.append_assoc]
    exact hone.source _ hmid
  · exact (respects_word (by decide) _ _ hmid).symm.trans hon

theorem ReadsRoles.respell (ht : spelled t = some separator.toList)
    (ht' : spelled t' = some separator'.toList) (hmem : separator ∈ separators)
    (hmem' : separator' ∈ separators)
    (h : ReadsRoles features (front ++ t :: more) roles (t :: more)) :
    ReadsRoles features (front ++ t' :: more) roles (t' :: more) := by
  obtain ⟨elements, helements, hroles⟩ := h
  obtain ⟨used, hone⟩ := rewrites_privileges helements
  obtain ⟨-, hwords, htwo⟩ := roles_of_elements hroles
  have halike : Same (t :: more).head? (t' :: more).head? := alike_separators ht ht' hmem hmem'
  refine ⟨elements, ?_, htwo.source _ halike⟩
  rw [List.append_cancel_right hone.split]
  exact hone.source _ halike

end
/-! ## Statements by their parts -/

section
variable {privileges : Privileges} {object : GrantObject T} {roles : List Ident}
  {grantees : List Grantee}

/-- A list of privileges that is not `ALL`, granted without a tail. -/
theorem grant_reads (hall : ts.head?.any (token_is_contextual_keyword "all") = false)
    (hend : Ended rest) :
    parse_grant_kind features syntaxes parse_data_type ts =
        .ok (.Grant privileges object grantees false none, rest) ↔
      ∃ sep more, spelled sep = some "to".toList ∧
        ReadsPrivileges features syntaxes parse_data_type ts privileges object (sep :: more) ∧
        parse_grantee_list features more = .ok (grantees, rest) := by
  rw [parse_grant_kind, bind_apply, look_apply, bind_ok, hall, if_neg Bool.false_ne_true]
  constructor
  · intro h
    obtain ⟨⟨elements, mid⟩, helements, h⟩ := bind_eq_ok.mp h
    dsimp only at h
    rw [bind_apply, look_apply, bind_ok] at h
    cases hon : mid.head?.any (token_is_contextual_keyword "on") with
    | true =>
      rw [hon, if_pos rfl] at h
      obtain ⟨⟨object', mid'⟩, hobject, h⟩ := bind_eq_ok.mp h
      obtain ⟨⟨⟨⟩, more⟩, hto, h⟩ := bind_eq_ok.mp h
      obtain ⟨⟨grantees', mid''⟩, hgrantees, h⟩ := bind_eq_ok.mp h
      obtain ⟨⟨with_option, behind⟩, hoption, h⟩ := bind_eq_ok.mp h
      obtain ⟨⟨granted_by, last⟩, hgranted, heq⟩ := bind_eq_ok.mp h
      cases heq
      obtain ⟨sep, rfl, hspelled⟩ := expect_eq_ok hto
      refine ⟨sep, more, hspelled, ⟨elements, mid, helements, hon, rfl, hobject⟩, ?_⟩
      rw [← granted_by_absent hgranted, ← with_option_absent hoption]
      exact hgrantees
    | false =>
      rw [hon, if_neg Bool.false_ne_true] at h
      obtain ⟨⟨taken, behind⟩, -, h⟩ := bind_eq_ok.mp h
      cases taken with
      | false => cases h
      | true =>
        obtain ⟨⟨_, _⟩, -, h⟩ := bind_eq_ok.mp h
        obtain ⟨⟨_, _⟩, -, h⟩ := bind_eq_ok.mp h
        obtain ⟨⟨_, _⟩, -, h⟩ := bind_eq_ok.mp h
        obtain ⟨⟨_, _⟩, -, heq⟩ := bind_eq_ok.mp h
        cases heq
  · rintro ⟨sep, more, hto, ⟨elements, mid, helements, hon, rfl, hobject⟩, hgrantees⟩
    have hon' : mid.head?.any (token_is_contextual_keyword "on") = true := hon
    rw [bind_apply, helements, bind_ok, bind_apply, look_apply, bind_ok, hon', if_pos rfl,
      finish_privilege_grant, bind_apply, hobject, bind_ok, bind_apply, expect_apply hto, bind_ok,
      bind_apply, hgrantees, bind_ok, bind_apply, with_option_ended hend, bind_ok, bind_apply,
      granted_by_ended hend]
    rfl

theorem grant_role_reads (hall : ts.head?.any (token_is_contextual_keyword "all") = false)
    (hend : Ended rest) :
    parse_grant_kind features syntaxes parse_data_type ts =
        .ok (.GrantRole roles grantees false none, rest) ↔
      ∃ sep more, spelled sep = some "to".toList ∧ ReadsRoles features ts roles (sep :: more) ∧
        parse_grantee_list features more = .ok (grantees, rest) := by
  rw [parse_grant_kind, bind_apply, look_apply, bind_ok, hall, if_neg Bool.false_ne_true]
  constructor
  · intro h
    obtain ⟨⟨elements, mid⟩, helements, h⟩ := bind_eq_ok.mp h
    dsimp only at h
    rw [bind_apply, look_apply, bind_ok] at h
    cases hon : mid.head?.any (token_is_contextual_keyword "on") with
    | true =>
      rw [hon, if_pos rfl] at h
      obtain ⟨⟨_, _⟩, -, h⟩ := bind_eq_ok.mp h
      obtain ⟨⟨⟨⟩, _⟩, -, h⟩ := bind_eq_ok.mp h
      obtain ⟨⟨_, _⟩, -, h⟩ := bind_eq_ok.mp h
      obtain ⟨⟨_, _⟩, -, h⟩ := bind_eq_ok.mp h
      obtain ⟨⟨_, _⟩, -, heq⟩ := bind_eq_ok.mp h
      cases heq
    | false =>
      rw [hon, if_neg Bool.false_ne_true] at h
      obtain ⟨⟨taken, more⟩, heat, htail⟩ := bind_eq_ok.mp h
      cases taken with
      | false => cases htail
      | true =>
        obtain ⟨⟨roles', mid'⟩, hroles, htail⟩ := bind_eq_ok.mp htail
        obtain ⟨⟨grantees', mid''⟩, hgrantees, htail⟩ := bind_eq_ok.mp htail
        obtain ⟨⟨with_option, behind⟩, hoption, htail⟩ := bind_eq_ok.mp htail
        obtain ⟨⟨granted_by, last⟩, hgranted, heq⟩ := bind_eq_ok.mp htail
        obtain ⟨sep, rfl, htest⟩ := accept_eq_true heat
        cases heq
        obtain ⟨hcolumns, hwords, hone⟩ := roles_of_elements hroles
        have hsplit : more = mid' := hone.split
        subst hsplit
        refine ⟨sep, more, beq_iff_eq.mp htest, ⟨elements, helements, ?_⟩, ?_⟩
        · exact roles_apply hroles _
        · rw [← granted_by_absent hgranted, ← with_option_absent hoption]
          exact hgrantees
  · rintro ⟨sep, more, hto, ⟨elements, helements, hroles⟩, hgrantees⟩
    have hon : (sep :: more).head?.any (token_is_contextual_keyword "on") = false :=
      is_contextual_keyword hto "on"
    rw [bind_apply, helements, bind_ok, bind_apply, look_apply, bind_ok, hon,
      if_neg Bool.false_ne_true, eat_contextual_same hto, if_pos rfl, finish_role_grant,
      bind_apply, roles_apply hroles more, bind_ok, bind_apply, hgrantees, bind_ok, bind_apply,
      with_option_ended hend, bind_ok, bind_apply, granted_by_ended hend]
    rfl
theorem revoke_plain {statement : AccessControlStatement T}
    (h : parse_revoked features syntaxes parse_data_type false false ts = .ok (statement, rest)) :
    parse_revoke_kind features syntaxes parse_data_type ts = .ok (statement, rest) :=
  revoke_kind_written rfl (Bool.and_false _) h

/-- A list of privileges that is revoked without a prefix or a tail. -/
theorem revoke_reads (hend : Ended rest) :
    parse_revoke_kind features syntaxes parse_data_type ts =
        .ok (.Revoke false privileges object grantees none none, rest) ↔
      ∃ sep more, spelled sep = some "from".toList ∧
        ReadsPrivileges features syntaxes parse_data_type ts privileges object (sep :: more) ∧
        parse_grantee_list features more = .ok (grantees, rest) := by
  constructor
  · intro h
    obtain ⟨grant_option_for, admin_option_for, start, -, -, hstart, h⟩ := revoke_kind_prefixes h
    obtain ⟨⟨elements, mid⟩, helements, h⟩ := bind_eq_ok.mp h
    dsimp only at h
    rw [bind_apply, look_apply, bind_ok] at h
    cases hon : (!admin_option_for && mid.head?.any (token_is_contextual_keyword "on")) with
    | true =>
      rw [hon, if_pos rfl] at h
      obtain ⟨⟨object', mid'⟩, hobject, h⟩ := bind_eq_ok.mp h
      obtain ⟨⟨⟨⟩, more⟩, hfrom, h⟩ := bind_eq_ok.mp h
      obtain ⟨⟨grantees', mid''⟩, hgrantees, h⟩ := bind_eq_ok.mp h
      obtain ⟨⟨granted_by, behind⟩, hgranted, h⟩ := bind_eq_ok.mp h
      obtain ⟨⟨behavior, last⟩, hbehavior, heq⟩ := bind_eq_ok.mp h
      cases heq
      obtain ⟨hadmin, hon⟩ := Bool.and_eq_true_iff.mp hon
      have hts : start = ts := hstart rfl ((Bool.not_eq_true' _).mp hadmin)
      subst hts
      obtain ⟨sep, rfl, hspelled⟩ := expect_eq_ok hfrom
      refine ⟨sep, more, hspelled, ⟨elements, mid, helements, hon, rfl, hobject⟩, ?_⟩
      rw [← behavior_absent hbehavior, ← granted_by_absent hgranted]
      exact hgrantees
    | false =>
      rw [hon, if_neg Bool.false_ne_true] at h
      cases grant_option_for with
      | true => cases h
      | false =>
        rw [if_neg Bool.false_ne_true] at h
        obtain ⟨⟨taken, behind⟩, -, h⟩ := bind_eq_ok.mp h
        cases taken with
        | false => cases h
        | true =>
          obtain ⟨⟨_, _⟩, -, h⟩ := bind_eq_ok.mp h
          obtain ⟨⟨_, _⟩, -, h⟩ := bind_eq_ok.mp h
          obtain ⟨⟨_, _⟩, -, h⟩ := bind_eq_ok.mp h
          obtain ⟨⟨_, _⟩, -, heq⟩ := bind_eq_ok.mp h
          cases heq
  · rintro ⟨sep, more, hsep, ⟨elements, mid, helements, hon, rfl, hobject⟩, hgrantees⟩
    apply revoke_plain
    have hon' : (!false && mid.head?.any (token_is_contextual_keyword "on")) = true := hon
    rw [parse_revoked, bind_apply, helements, bind_ok, bind_apply, look_apply, bind_ok, hon',
      if_pos rfl, finish_privilege_revoke, bind_apply, hobject, bind_ok, bind_apply,
      expect_apply hsep, bind_ok, bind_apply, hgrantees, bind_ok, bind_apply,
      granted_by_ended hend, bind_ok, bind_apply, behavior_ended hend]
    rfl

theorem revoke_role_reads (hend : Ended rest) :
    parse_revoke_kind features syntaxes parse_data_type ts =
        .ok (.RevokeRole false roles grantees none none, rest) ↔
      ∃ sep more, spelled sep = some "from".toList ∧ ReadsRoles features ts roles (sep :: more) ∧
        parse_grantee_list features more = .ok (grantees, rest) := by
  constructor
  · intro h
    obtain ⟨grant_option_for, admin_option_for, start, -, -, hstart, h⟩ := revoke_kind_prefixes h
    obtain ⟨⟨elements, mid⟩, helements, h⟩ := bind_eq_ok.mp h
    dsimp only at h
    rw [bind_apply, look_apply, bind_ok] at h
    cases hon : (!admin_option_for && mid.head?.any (token_is_contextual_keyword "on")) with
    | true =>
      rw [hon, if_pos rfl] at h
      obtain ⟨⟨_, _⟩, -, h⟩ := bind_eq_ok.mp h
      obtain ⟨⟨⟨⟩, _⟩, -, h⟩ := bind_eq_ok.mp h
      obtain ⟨⟨_, _⟩, -, h⟩ := bind_eq_ok.mp h
      obtain ⟨⟨_, _⟩, -, h⟩ := bind_eq_ok.mp h
      obtain ⟨⟨_, _⟩, -, heq⟩ := bind_eq_ok.mp h
      cases heq
    | false =>
      rw [hon, if_neg Bool.false_ne_true] at h
      cases grant_option_for with
      | true => cases h
      | false =>
        rw [if_neg Bool.false_ne_true] at h
        obtain ⟨⟨taken, more⟩, heat, htail⟩ := bind_eq_ok.mp h
        cases taken with
        | false => cases htail
        | true =>
          obtain ⟨⟨roles', mid'⟩, hroles, htail⟩ := bind_eq_ok.mp htail
          obtain ⟨⟨grantees', mid''⟩, hgrantees, htail⟩ := bind_eq_ok.mp htail
          obtain ⟨⟨granted_by, behind⟩, hgranted, htail⟩ := bind_eq_ok.mp htail
          obtain ⟨⟨behavior, last⟩, hbehavior, heq⟩ := bind_eq_ok.mp htail
          cases heq
          have hts : start = ts := hstart rfl rfl
          subst hts
          obtain ⟨sep, rfl, htest⟩ := accept_eq_true heat
          obtain ⟨hcolumns, hwords, hone⟩ := roles_of_elements hroles
          have hsplit : more = mid' := hone.split
          subst hsplit
          refine ⟨sep, more, beq_iff_eq.mp htest, ⟨elements, helements, ?_⟩, ?_⟩
          · exact roles_apply hroles _
          · rw [← behavior_absent hbehavior, ← granted_by_absent hgranted]
            exact hgrantees
  · rintro ⟨sep, more, hsep, ⟨elements, helements, hroles⟩, hgrantees⟩
    apply revoke_plain
    have hon : (!false && (sep :: more).head?.any (token_is_contextual_keyword "on")) = false :=
      is_contextual_keyword hsep "on"
    rw [parse_revoked, bind_apply, helements, bind_ok, bind_apply, look_apply, bind_ok, hon,
      if_neg Bool.false_ne_true, if_neg Bool.false_ne_true, eat_contextual_same hsep, if_pos rfl,
      finish_role_revoke, bind_apply, roles_apply hroles more, bind_ok, bind_apply, hgrantees,
      bind_ok, bind_apply, granted_by_ended hend, bind_ok, bind_apply, behavior_ended hend]
    rfl

end

/-! ## The grantees -/

/-- The tokens of a list with commas are counted by its items. -/
theorem comma_separated_length {α : Type} {item : ParseResult α} {size : α → Nat}
    (hitem : ∀ ts a rest, item ts = .ok (a, rest) → ts.length = rest.length + size a)
    {as : List α} (h : parse_comma_separated item ts = .ok (as, rest)) :
    ts.length + 1 = rest.length + (as.map fun a => size a + 1).sum := by
  have hturn : ∀ ts a rest, comma_turn item ts = .ok (some a, rest) →
      ts.length = rest.length + (size a + 1) := by
    intro ts a rest h
    obtain ⟨⟨taken, mid⟩, haccept, hrest⟩ := bind_eq_ok.mp h
    cases taken with
    | false => cases hrest
    | true =>
      obtain ⟨⟨a', mid'⟩, hone, heq⟩ := bind_eq_ok.mp hrest
      cases heq
      obtain ⟨t, rfl, -⟩ := accept_eq_true haccept
      have hlength := hitem _ _ _ hone
      rw [List.length_cons]
      omega
  have hshrinks : Shrinks (comma_turn item) := by
    intro ts a rest h
    have hlength := hturn ts a rest h
    omega
  have hlists : ∀ {ts rest : List Token} {as : List α}, Lists (comma_turn item) ts as rest →
      ts.length = rest.length + (as.map fun a => size a + 1).sum := by
    intro ts rest as h
    induction h with
    | stop hstop =>
      obtain ⟨⟨taken, mid⟩, haccept, hrest⟩ := bind_eq_ok.mp hstop
      cases taken with
      | true =>
        obtain ⟨⟨_, _⟩, -, heq⟩ := bind_eq_ok.mp hrest
        cases heq
      | false =>
        cases hrest
        rw [(accept_eq_false haccept).2]
        rfl
    | turn hone _ ih =>
      have hlength := hturn _ _ _ hone
      rw [List.map_cons, List.sum_cons]
      omega
  obtain ⟨⟨head, mid⟩, hhead, h⟩ := bind_eq_ok.mp h
  obtain ⟨⟨tail, mid'⟩, htail, heq⟩ := bind_eq_ok.mp h
  cases heq
  have hone := hitem _ _ _ hhead
  have hrest := hlists ((many_eq_ok hshrinks).mp htail)
  rw [List.map_cons, List.sum_cons]
  omega

theorem token_length {α : Type} {means : Token → Option α} {error : String} {a : α}
    (h : token means error ts = .ok (a, rest)) : ts.length = rest.length + 1 := by
  rw [token_apply] at h
  cases ts with
  | nil => cases h
  | cons t ts =>
    cases hmeans : means t with
    | none => simp [hmeans] at h
    | some found =>
      simp only [List.head?_cons, Option.bind_some, hmeans, Option.elim_some, List.tail_cons,
        Except.ok.injEq, Prod.mk.injEq] at h
      rw [h.2, List.length_cons]

theorem grantee_length {grantee : Grantee} (h : parse_grantee features ts = .ok (grantee, rest)) :
    ts.length = rest.length + grantee.tokens.length := by
  obtain ⟨⟨group, mid⟩, hgroup, h⟩ := bind_eq_ok.mp h
  obtain ⟨⟨spec, behind⟩, hspec, heq⟩ := bind_eq_ok.mp h
  cases heq
  have hone := token_length hspec
  cases group with
  | true =>
    obtain ⟨t, rfl, -⟩ := accept_eq_true hgroup
    rw [List.length_cons, hone]
    rfl
  | false =>
    rw [(accept_eq_false hgroup).2, hone]
    rfl

/-- Texts of one list of grantees are of one length. -/
theorem grantees_length {grantees : List Grantee} {ts ts' : List Token}
    (h : parse_grantee_list features ts = .ok (grantees, rest))
    (h' : parse_grantee_list features ts' = .ok (grantees, rest)) : ts.length = ts'.length := by
  have hone := comma_separated_length (fun _ _ _ => grantee_length) h
  have htwo := comma_separated_length (fun _ _ _ => grantee_length) h'
  omega
/-! ## Duality -/

section
variable {privileges : Privileges} {object : GrantObject T} {roles : List Ident}
  {grantees : List Grantee} {front more more' : List Token} {sep sep' : Token}

theorem ReadsPrivileges.split (hfixed : Fixed (parse_arg_types parse_data_type))
    (h : ReadsPrivileges features syntaxes parse_data_type ts privileges object behind) :
    ∃ used, ts = used ++ behind := by
  obtain ⟨elements, mid, helements, -, -, hobject⟩ := h
  obtain ⟨used, hone⟩ := rewrites_privileges helements
  obtain ⟨used', _, htwo, -⟩ := rewrites_grant_object (fun _ => []) hfixed hobject
  refine ⟨used ++ used', ?_⟩
  rw [hone.split, htwo.split, List.append_assoc]

theorem ReadsRoles.split (h : ReadsRoles features ts roles behind) :
    ∃ used, ts = used ++ behind := by
  obtain ⟨elements, helements, -⟩ := h
  obtain ⟨used, hone⟩ := rewrites_privileges helements
  exact ⟨used, hone.split⟩

/-- The grantees that are read are those that stand behind the separator. -/
theorem separator_unique {used : List Token} (hsplit : front ++ sep :: more = used ++ sep' :: more')
    (h : parse_grantee_list features more = .ok (grantees, rest))
    (h' : parse_grantee_list features more' = .ok (grantees, rest)) :
    front = used ∧ sep = sep' ∧ more = more' := by
  have hlength : (sep :: more).length = (sep' :: more').length := by
    rw [List.length_cons, List.length_cons, grantees_length h h']
  obtain ⟨hfront, hbehind⟩ := List.append_inj' hsplit hlength
  obtain ⟨hsep, hmore⟩ := List.cons.inj hbehind
  exact ⟨hfront, hsep, hmore⟩

theorem privileges_dual (hfixed : Fixed (parse_arg_types parse_data_type)) (hend : Ended rest)
    (hall : front.head?.any (token_is_contextual_keyword "all") = false)
    (hto : spelled sep = some "to".toList) (hfrom : spelled sep' = some "from".toList)
    (hgrantees : parse_grantee_list features more = .ok (grantees, rest)) :
    parse_grant_kind features syntaxes parse_data_type (front ++ sep :: more) =
        .ok (.Grant privileges object grantees false none, rest) ↔
      parse_revoke_kind features syntaxes parse_data_type (front ++ sep' :: more) =
        .ok (.Revoke false privileges object grantees none none, rest) := by
  have hall' : (front ++ sep :: more).head?.any (token_is_contextual_keyword "all") = false := by
    cases front with
    | nil => exact is_contextual_keyword hto "all"
    | cons t front => exact hall
  rw [grant_reads hall' hend, revoke_reads hend]
  constructor
  · rintro ⟨c, behind, -, hreads, hlist⟩
    obtain ⟨used, hsplit⟩ := hreads.split hfixed
    obtain ⟨rfl, rfl, rfl⟩ := separator_unique hsplit hgrantees hlist
    exact ⟨sep', more, hfrom, hreads.respell hfixed hto hfrom (by decide) (by decide), hlist⟩
  · rintro ⟨c, behind, -, hreads, hlist⟩
    obtain ⟨used, hsplit⟩ := hreads.split hfixed
    obtain ⟨rfl, rfl, rfl⟩ := separator_unique hsplit hgrantees hlist
    exact ⟨sep, more, hto, hreads.respell hfixed hfrom hto (by decide) (by decide), hlist⟩

theorem roles_dual (hend : Ended rest)
    (hall : front.head?.any (token_is_contextual_keyword "all") = false)
    (hto : spelled sep = some "to".toList) (hfrom : spelled sep' = some "from".toList)
    (hgrantees : parse_grantee_list features more = .ok (grantees, rest)) :
    parse_grant_kind features syntaxes parse_data_type (front ++ sep :: more) =
        .ok (.GrantRole roles grantees false none, rest) ↔
      parse_revoke_kind features syntaxes parse_data_type (front ++ sep' :: more) =
        .ok (.RevokeRole false roles grantees none none, rest) := by
  have hall' : (front ++ sep :: more).head?.any (token_is_contextual_keyword "all") = false := by
    cases front with
    | nil => exact is_contextual_keyword hto "all"
    | cons t front => exact hall
  rw [grant_role_reads hall' hend, revoke_role_reads hend]
  constructor
  · rintro ⟨c, behind, -, hreads, hlist⟩
    obtain ⟨used, hsplit⟩ := hreads.split
    obtain ⟨rfl, rfl, rfl⟩ := separator_unique hsplit hgrantees hlist
    exact ⟨sep', more, hfrom, hreads.respell hto hfrom (by decide) (by decide), hlist⟩
  · rintro ⟨c, behind, -, hreads, hlist⟩
    obtain ⟨used, hsplit⟩ := hreads.split
    obtain ⟨rfl, rfl, rfl⟩ := separator_unique hsplit hgrantees hlist
    exact ⟨sep, more, hto, hreads.respell hfrom hto (by decide) (by decide), hlist⟩

end

/-! ## The leading list -/

/-- What the leading list of a statement was read as. -/
def AccessControlStatement.leading : AccessControlStatement T → Privileges ⊕ List Ident
  | .Grant privileges _ _ _ _ => .inl privileges
  | .Revoke _ privileges _ _ _ _ => .inl privileges
  | .GrantRole roles _ _ _ => .inr roles
  | .RevokeRole _ roles _ _ _ => .inr roles

/-- The elements of a leading list are privileges in front of `ON`, and roles in front of the word
that separates them from the grantees. -/
structure ReadBy (separator : String) (leading : Privileges ⊕ List Ident)
    (elements : List GrantElement) (behind : List Token) : Prop where
  one : peek_is_contextual_keyword "on" behind = true ∨
    peek_is_contextual_keyword separator behind = true
  privileges : peek_is_contextual_keyword "on" behind = true ↔
    leading = .inl (privileges_from_elements elements)
  roles : peek_is_contextual_keyword separator behind = true ↔
    leading = .inr (elements.map GrantElement.word)

theorem readBy_on {separator : String} {elements : List GrantElement} (hne : "on" ≠ separator)
    (hon : peek_is_contextual_keyword "on" behind = true) :
    ReadBy separator (.inl (privileges_from_elements elements)) elements behind := by
  refine ⟨.inl hon, iff_of_true hon rfl, iff_of_false ?_ nofun⟩
  cases behind with
  | nil => cases hon
  | cons t behind =>
    have ht : spelled t = some "on".toList := beq_iff_eq.mp hon
    rw [peek_contextual_cons ht, beq_iff_eq]
    exact hne

theorem readBy_separator {separator : String} {elements : List GrantElement}
    (hne : separator ≠ "on") (hseparator : peek_is_contextual_keyword separator behind = true) :
    ReadBy separator (.inr (elements.map GrantElement.word)) elements behind := by
  refine ⟨.inr hseparator, iff_of_false ?_ nofun, iff_of_true hseparator rfl⟩
  cases behind with
  | nil => cases hseparator
  | cons t behind =>
    have ht : spelled t = some separator.toList := beq_iff_eq.mp hseparator
    rw [peek_contextual_cons ht, beq_iff_eq]
    exact hne

theorem grant_leading (hfixed : Fixed (parse_arg_types parse_data_type))
    (hall : ts.head?.any (token_is_contextual_keyword "all") = false)
    {statement : AccessControlStatement T}
    (h : parse_grant_kind features syntaxes parse_data_type ts = .ok (statement, rest)) :
    ∃ elements behind, parse_grant_element_list features ts = .ok (elements, behind) ∧
      ReadBy "to" statement.leading elements behind := by
  rw [parse_grant_kind, bind_apply, look_apply, bind_ok, hall, if_neg Bool.false_ne_true] at h
  obtain ⟨⟨elements, mid⟩, helements, h⟩ := bind_eq_ok.mp h
  refine ⟨elements, mid, helements, ?_⟩
  dsimp only at h
  rw [bind_apply, look_apply, bind_ok] at h
  cases hon : mid.head?.any (token_is_contextual_keyword "on") with
  | true =>
    rw [hon, if_pos rfl] at h
    obtain ⟨object, grantees, with_option, granted_by, _, _, rfl, -, -⟩ :=
      rewrites_privilege_grant (fun _ => []) hfixed _ (privileges_from_elements elements) h
    exact readBy_on (by decide) hon
  | false =>
    rw [hon, if_neg Bool.false_ne_true] at h
    obtain ⟨⟨taken, behind⟩, heat, htail⟩ := bind_eq_ok.mp h
    cases taken with
    | false => cases htail
    | true =>
      obtain ⟨-, grantees, with_option, granted_by, _, _, rfl, -, -⟩ := rewrites_role_grant htail
      obtain ⟨t, rfl, htest⟩ := accept_eq_true heat
      exact readBy_separator (by decide) htest

/-- The prefixes of a `REVOKE`, in front of its leading list. -/
def parse_revoke_prefixes : ParseResult (Bool × Bool) := do
  let grant_option_for ← parse_option_for "grant"
  let admin_option_for ← (if grant_option_for then return false else parse_option_for "admin")
  return (grant_option_for, admin_option_for)

theorem revoke_leading (hfixed : Fixed (parse_arg_types parse_data_type))
    {statement : AccessControlStatement T}
    (h : parse_revoke_kind features syntaxes parse_data_type ts = .ok (statement, rest)) :
    ∃ prefixes mid elements behind, parse_revoke_prefixes ts = .ok (prefixes, mid) ∧
      parse_grant_element_list features mid = .ok (elements, behind) ∧
      ReadBy "from" statement.leading elements behind := by
  obtain ⟨⟨grant_option_for, mid⟩, hgrant, h⟩ := bind_eq_ok.mp h
  obtain ⟨⟨admin_option_for, start⟩, hadmin, h⟩ := bind_eq_ok.mp h
  have hprefixes :
      parse_revoke_prefixes ts = .ok ((grant_option_for, admin_option_for), start) := by
    rw [parse_revoke_prefixes, bind_apply, hgrant, bind_ok, bind_apply, hadmin]
    rfl
  refine ⟨(grant_option_for, admin_option_for), start, ?_⟩
  cases hgate : (!syntaxes.access_control_extended_objects &&
      (grant_option_for || admin_option_for)) with
  | true =>
    simp only [hgate] at h
    cases h
  | false =>
    simp only [hgate] at h
    obtain ⟨⟨elements, behind⟩, helements, h⟩ := bind_eq_ok.mp h
    refine ⟨elements, behind, hprefixes, helements, ?_⟩
    dsimp only at h
    rw [bind_apply, look_apply, bind_ok] at h
    cases hon : (!admin_option_for && behind.head?.any (token_is_contextual_keyword "on")) with
    | true =>
      rw [hon, if_pos rfl] at h
      obtain ⟨object, grantees, granted_by, behavior, _, _, rfl, -, -⟩ :=
        rewrites_privilege_revoke (fun _ => []) hfixed h
      exact readBy_on (by decide) (Bool.and_eq_true_iff.mp hon).2
    | false =>
      rw [hon, if_neg Bool.false_ne_true] at h
      cases grant_option_for with
      | true => cases h
      | false =>
        rw [if_neg Bool.false_ne_true] at h
        obtain ⟨⟨taken, last⟩, heat, htail⟩ := bind_eq_ok.mp h
        cases taken with
        | false => cases htail
        | true =>
          obtain ⟨-, grantees, granted_by, behavior, _, _, rfl, -, -⟩ := rewrites_role_revoke htail
          obtain ⟨t, rfl, htest⟩ := accept_eq_true heat
          exact readBy_separator (by decide) htest
/-- `ALL` is a privilege list of its own, and `ON` follows it. -/
theorem grant_all_leading (hfixed : Fixed (parse_arg_types parse_data_type))
    (hall : ts.head?.any (token_is_contextual_keyword "all") = true)
    {statement : AccessControlStatement T}
    (h : parse_grant_kind features syntaxes parse_data_type ts = .ok (statement, rest)) :
    ∃ privileges_keyword behind,
      parse_all_privileges ts = .ok (.All privileges_keyword, behind) ∧
      peek_is_contextual_keyword "on" behind = true ∧
      statement.leading = .inl (.All privileges_keyword) := by
  rw [parse_grant_kind, bind_apply, look_apply, bind_ok, hall, if_pos rfl] at h
  obtain ⟨⟨privileges, behind⟩, hprivileges, htail⟩ := bind_eq_ok.mp h
  obtain ⟨⟨privileges_keyword, rfl⟩, -⟩ := rewrites_all_privileges hprivileges
  obtain ⟨object, grantees, with_option, granted_by, _, _, rfl, -, -⟩ :=
    rewrites_privilege_grant (fun _ => []) hfixed _ (.All privileges_keyword) htail
  refine ⟨privileges_keyword, behind, hprivileges, ?_, rfl⟩
  obtain ⟨⟨object', mid⟩, hobject, -⟩ := bind_eq_ok.mp htail
  obtain ⟨⟨⟨⟩, mid'⟩, hon, -⟩ := bind_eq_ok.mp hobject
  obtain ⟨t, rfl, hspelled⟩ := expect_eq_ok hon
  exact beq_iff_eq.mpr hspelled

/-- The arguments of a routine end at their parenthesis where each type is read in front of every
rest that starts alike. -/
theorem arg_types_fixed {write_data_type : T → List Token}
    (htype : ∀ ts a rest, parse_data_type ts = .ok (a, rest) →
      ∃ used, Rewrites Same parse_data_type parse_data_type ts a a rest used (write_data_type a)) :
    Fixed (parse_arg_types parse_data_type) := by
  intro ts types rest h
  obtain ⟨⟨found, mid⟩, hfound, h⟩ := bind_eq_ok.mp h
  obtain ⟨⟨⟨⟩, last⟩, hclose, heq⟩ := bind_eq_ok.mp h
  cases heq
  obtain ⟨⟨taken, behind⟩, heat, hlast⟩ := bind_eq_ok.mp hclose
  cases taken with
  | false => cases hlast
  | true =>
    cases hlast
    obtain ⟨t, rfl, ht⟩ := accept_eq_true heat
    have hparen : t = .rparen := beq_iff_eq.mp ht
    subst hparen
    rw [bind_apply, look_apply, bind_ok] at hfound
    cases hhead : ts.head? == some .rparen with
    | true =>
      rw [hhead, if_pos rfl] at hfound
      cases hfound
      exact ⟨[.rparen], rfl, List.cons_ne_nil _ _, fun _ => rfl⟩
    | false =>
      rw [hhead, if_neg Bool.false_ne_true] at hfound
      obtain ⟨used, hlist⟩ := rewrites_comma_list separators htype hfound
      have halike : ∀ rest' : List Token,
          Same (Token.rparen :: rest).head? (Token.rparen :: rest').head? :=
        fun _ => alike_self (by decide)
      refine ⟨used ++ [.rparen], ?_, ?_, ?_⟩
      · have hsplit : ts = used ++ .rparen :: rest := hlist.split
        rw [hsplit, List.append_assoc, List.singleton_append]
      · simp
      · intro rest'
        have hsame := respects_punct .RParen _ _ (hlist.front _ (halike rest')).1
        have hhead' : ((used ++ .rparen :: rest').head? == some .rparen) = false := by
          have hany : ∀ x : Option Token, x.any (· == .rparen) = (x == some .rparen) := by
            intro x
            cases x <;> rfl
          rw [← hany, ← hhead, ← hany]
          exact hsame.symm
        rw [List.append_assoc, List.singleton_append, parse_arg_types, bind_apply, bind_apply,
          look_apply, bind_ok, hhead', if_neg Bool.false_ne_true,
          hlist.source _ (halike rest'), bind_ok]
        rfl

/-! ## The two statements -/

/-- `ALL` on `t` is granted to `r`. -/
def grant_all (privileges_keyword : Bool) : AccessControlStatement Ident :=
  .Grant (.All privileges_keyword) (.Table false [[.ident (.Word "t".toList)]])
    [⟨false, .Name (.Word "r".toList)⟩] false none

end squonk.parser.clause.access_control
