import Squonk.Parser.Clause.AccessControl.Written

/-!
# Reading written statements

A statement that was read is read again from its canonical text. `ALL` comes back as
`ALL PRIVILEGES`, and everything else as it was.
-/

open squonk.ast squonk.tokenizer squonk.dialect listing listing.Reader

namespace squonk.parser.clause.access_control

variable {T : Type} {features : FeatureSet} {syntaxes : AccessControlSyntax}
  {parse_data_type : ParseResult T} {write_data_type : T → List Token} {ts rest : List Token}

def canonical_privileges : Privileges → Privileges
  | .All _ => .All true
  | privileges => privileges

/-- The statement with `PRIVILEGES` behind `ALL`. -/
def AccessControlStatement.canonical : AccessControlStatement T → AccessControlStatement T
  | .Grant privileges object grantees with_grant_option granted_by =>
    .Grant (canonical_privileges privileges) object grantees with_grant_option granted_by
  | .Revoke grant_option_for privileges object grantees granted_by behavior =>
    .Revoke grant_option_for (canonical_privileges privileges) object grantees granted_by behavior
  | statement => statement

/-- The argument types of a statement are taken again where they are written. -/
def AccessControlStatement.ReadBack (parse_data_type : ParseResult T)
    (write_data_type : T → List Token) : AccessControlStatement T → Prop
  | .Grant _ object _ _ _ => object.ReadBack parse_data_type write_data_type
  | .Revoke _ _ object _ _ _ => object.ReadBack parse_data_type write_data_type
  | _ => True

/-! ## `GRANT` -/

/-- What stands behind the privileges of a `GRANT`, whatever they are. -/
theorem rewrites_privilege_grant (write_data_type : T → List Token)
    (hfixed : Fixed (parse_arg_types parse_data_type))
    (privileges privileges' : Privileges) {statement : AccessControlStatement T}
    (h : finish_privilege_grant features syntaxes parse_data_type privileges ts =
      .ok (statement, rest)) :
    ∃ object grantees with_grant_option granted_by used new,
      statement = .Grant privileges object grantees with_grant_option granted_by ∧
      Rewrites Same (finish_privilege_grant features syntaxes parse_data_type privileges)
        (finish_privilege_grant features syntaxes parse_data_type privileges') ts statement
        (.Grant privileges' object grantees with_grant_option granted_by) rest used new ∧
      (object.ReadBack parse_data_type write_data_type →
        new = [written "on"] ++ object.tokens write_data_type ++ [written "to"] ++
          comma_list Grantee.tokens grantees ++ with_option_tokens "grant" with_grant_option ++
          granted_by_tokens granted_by) := by
  obtain ⟨⟨object, mid⟩, hobject, h⟩ := bind_eq_ok.mp h
  obtain ⟨⟨⟨⟩, mid'⟩, hto, h⟩ := bind_eq_ok.mp h
  obtain ⟨⟨grantees, mid''⟩, hgrantees, h⟩ := bind_eq_ok.mp h
  obtain ⟨⟨with_option, behind⟩, hoption, h⟩ := bind_eq_ok.mp h
  obtain ⟨⟨granted_by, last⟩, hgranted, heq⟩ := bind_eq_ok.mp h
  cases heq
  obtain ⟨_, new, hone, hnew⟩ := rewrites_grant_object write_data_type hfixed hobject
  obtain ⟨_, htwo⟩ := rewrites_expect separators (spelled_written (by decide)) hto
  obtain ⟨_, hthree⟩ := rewrites_grantees hgrantees
  obtain ⟨_, hfour⟩ := rewrites_with_option (by decide) hoption
  obtain ⟨_, hfive⟩ := rewrites_granted_by hgranted
  have hlast : Rewrites Same
      (do return (.Grant privileges object grantees with_option (← parse_granted_by features) :
        AccessControlStatement T))
      (do return .Grant privileges' object grantees with_option (← parse_granted_by features))
      behind (.Grant privileges object grantees with_option granted_by)
      (.Grant privileges' object grantees with_option granted_by) rest _ _ :=
    hfive.bind_last (.pure _ _)
  refine ⟨object, grantees, with_option, granted_by, _, _, rfl,
    hone.bind (htwo.bind (hthree.bind (hfour.bind hlast))), ?_⟩
  intro hgood
  rw [hnew hgood]
  simp only [List.append_assoc]

theorem rewrites_all_privileges {privileges : Privileges}
    (h : parse_all_privileges ts = .ok (privileges, rest)) :
    (∃ privileges_keyword, privileges = .All privileges_keyword) ∧
    ∃ used, Rewrites Same parse_all_privileges parse_all_privileges ts privileges (.All true) rest
      used [written "all", written "privileges"] := by
  obtain ⟨⟨⟨⟩, mid⟩, hall, h⟩ := bind_eq_ok.mp h
  obtain ⟨⟨privileges_keyword, behind⟩, hkeyword, heq⟩ := bind_eq_ok.mp h
  cases heq
  refine ⟨⟨privileges_keyword, rfl⟩, ?_⟩
  obtain ⟨_, hone⟩ := rewrites_expect separators (spelled_written (by decide)) hall
  obtain ⟨_, htwo⟩ := rewrites_eat separators (by decide) (spelled_written (by decide)) hkeyword
  have hsource : Rewrites Same parse_all_privileges parse_all_privileges ts
      (.All privileges_keyword) (.All privileges_keyword) rest _ _ :=
    hone.bind (htwo.bind_pure Privileges.All)
  have hfront : ∀ ts' : List Token, Same ts.head? (written "all" :: ts').head? := by
    intro ts'
    obtain ⟨⟨taken, mid'⟩, heat, h⟩ := bind_eq_ok.mp hall
    cases taken with
    | false => cases h
    | true =>
      obtain ⟨t, rfl, ht⟩ := accept_eq_true heat
      exact alike_spelled (beq_iff_eq.mp ht) (spelled_written (by decide))
  refine ⟨_, hsource.split, ?_, hsource.source, ?_⟩
  · intro rest' halike
    exact ⟨(hsource.front rest' halike).1, hfront _⟩
  · intro rest' _
    have hall' : expect_contextual_keyword "all" (written "all" :: written "privileges" :: rest') =
        .ok ((), written "privileges" :: rest') := expect_apply (spelled_written (by decide))
    have hkeyword' : eat_contextual_keyword "privileges" (written "privileges" :: rest') =
        .ok (true, rest') := eat_apply (spelled_written (by decide))
    simp [parse_all_privileges, hall', hkeyword']

theorem roles_of_elements {elements : List GrantElement} {roles : List Ident}
    (h : roles_from_elements elements ts = .ok (roles, rest)) :
    (∀ element ∈ elements, element.columns = []) ∧ roles = elements.map GrantElement.word ∧
      Rewrites Same (roles_from_elements elements) (roles_from_elements elements) ts roles roles
        rest [] [] := by
  cases hcolumns : elements.any fun element => !element.columns.isEmpty with
  | true =>
    rw [roles_from_elements, hcolumns] at h
    cases h
  | false =>
    rw [roles_from_elements, hcolumns, if_neg Bool.false_ne_true] at h ⊢
    cases h
    refine ⟨?_, rfl, .pure _ _⟩
    intro element helement
    have hnone := List.any_eq_false.mp hcolumns element helement
    simpa using hnone

theorem rewrites_role_grant {elements : List GrantElement} {statement : AccessControlStatement T}
    (h : finish_role_grant features elements ts = .ok (statement, rest)) :
    (∀ element ∈ elements, element.columns = []) ∧
    ∃ grantees with_admin_option granted_by used new,
      statement = .GrantRole (elements.map GrantElement.word) grantees with_admin_option
        granted_by ∧
      Rewrites Same (finish_role_grant features elements) (finish_role_grant features elements) ts
        statement statement rest used new ∧
      new = comma_list Grantee.tokens grantees ++ with_option_tokens "admin" with_admin_option ++
        granted_by_tokens granted_by := by
  obtain ⟨⟨roles, mid⟩, hroles, h⟩ := bind_eq_ok.mp h
  obtain ⟨⟨grantees, mid'⟩, hgrantees, h⟩ := bind_eq_ok.mp h
  obtain ⟨⟨with_option, behind⟩, hoption, h⟩ := bind_eq_ok.mp h
  obtain ⟨⟨granted_by, last⟩, hgranted, heq⟩ := bind_eq_ok.mp h
  cases heq
  obtain ⟨hcolumns, rfl, hone⟩ := roles_of_elements hroles
  obtain ⟨_, htwo⟩ := rewrites_grantees hgrantees
  obtain ⟨_, hthree⟩ := rewrites_with_option (by decide) hoption
  obtain ⟨_, hfour⟩ := rewrites_granted_by hgranted
  refine ⟨hcolumns, grantees, with_option, granted_by, _, _, rfl, hone.bind (htwo.bind
    (hthree.bind (hfour.bind_pure (AccessControlStatement.GrantRole
      (elements.map GrantElement.word) grantees with_option)))), ?_⟩
  simp only [List.nil_append, List.append_assoc]

theorem respects_word {word : String} (h : word ∉ separators) :
    Respects Same (token_is_contextual_keyword word) := respects_contextual h

/-- A statement behind its `GRANT`, and its canonical text. -/
theorem rewrites_grant_kind (hfixed : Fixed (parse_arg_types parse_data_type))
    {statement : AccessControlStatement T}
    (h : parse_grant_kind features syntaxes parse_data_type ts = .ok (statement, rest)) :
    ∃ used new, Rewrites Same (parse_grant_kind features syntaxes parse_data_type)
      (parse_grant_kind features syntaxes parse_data_type) ts statement statement.canonical rest
      used new ∧
      (statement.ReadBack parse_data_type write_data_type →
        statement.tokens write_data_type = written "grant" :: new) := by
  have hlook := h
  rw [parse_grant_kind, bind_apply, look_apply, bind_ok] at hlook
  cases hall : ts.head?.any (token_is_contextual_keyword "all") with
  | true =>
    rw [hall, if_pos rfl] at hlook
    obtain ⟨⟨privileges, mid⟩, hprivileges, htail⟩ := bind_eq_ok.mp hlook
    obtain ⟨⟨privileges_keyword, rfl⟩, used, hone⟩ := rewrites_all_privileges hprivileges
    obtain ⟨object, grantees, with_option, granted_by, used', new, rfl, htwo, hnew⟩ :=
      rewrites_privilege_grant write_data_type hfixed _ (.All true) htail
    refine ⟨used ++ used', [written "all", written "privileges"] ++ new,
      .look (respects_word (by decide)) ?_, ?_⟩
    · rw [hall, if_pos rfl]
      exact hone.bind htwo
    · intro hgood
      rw [hnew hgood]
      simp only [AccessControlStatement.tokens, privileges_tokens, List.append_assoc]
      rfl
  | false =>
    rw [hall, if_neg Bool.false_ne_true] at hlook
    obtain ⟨⟨elements, mid⟩, helements, htail⟩ := bind_eq_ok.mp hlook
    dsimp only at htail
    rw [bind_apply, look_apply, bind_ok] at htail
    cases hon : mid.head?.any (token_is_contextual_keyword "on") with
    | true =>
      rw [hon, if_pos rfl] at htail
      obtain ⟨used, hone⟩ := rewrites_privileges helements
      obtain ⟨object, grantees, with_option, granted_by, used', new, rfl, htwo, hnew⟩ :=
        rewrites_privilege_grant write_data_type hfixed _
          (privileges_from_elements elements) htail
      have hsame : privileges_from_elements (elements.map GrantElement.canonical) =
          privileges_from_elements elements := by
        simp [privileges_from_elements, canonical_privilege]
      refine ⟨used ++ used', privileges_tokens (privileges_from_elements elements) ++ new,
        .look (respects_word (by decide)) ?_, ?_⟩
      · rw [hall, if_neg Bool.false_ne_true]
        refine hone.bind (.look (respects_word (by decide)) ?_)
        rw [hon, if_pos rfl, if_pos rfl, hsame]
        exact htwo
      · intro hgood
        rw [hnew hgood]
        simp only [AccessControlStatement.tokens, List.append_assoc]
        rfl
    | false =>
      rw [hon, if_neg Bool.false_ne_true] at htail
      obtain ⟨⟨taken, behind⟩, heat, htail⟩ := bind_eq_ok.mp htail
      cases taken with
      | false => cases htail
      | true =>
        obtain ⟨hcolumns, grantees, with_option, granted_by, used', new, rfl, hthree, rfl⟩ :=
          rewrites_role_grant htail
        obtain ⟨used, hone⟩ := rewrites_roles hcolumns helements
        obtain ⟨used'', htwo⟩ := rewrites_eat_true separators (spelled_written (by decide)) heat
        refine ⟨used ++ (used'' ++ used'),
          comma_list (fun role => [expr.ident_token role]) (elements.map GrantElement.word) ++
            ([written "to"] ++ (comma_list Grantee.tokens grantees ++
              with_option_tokens "admin" with_option ++ granted_by_tokens granted_by)),
          .look (respects_word (by decide)) ?_, ?_⟩
        · rw [hall, if_neg Bool.false_ne_true]
          refine hone.bind (.look (respects_word (by decide)) ?_)
          rw [hon, if_neg Bool.false_ne_true]
          exact htwo.bind hthree
        · intro _
          simp only [AccessControlStatement.tokens, List.append_assoc]
          rfl
/-! ## `REVOKE` -/

/-- What stands behind the privileges of a `REVOKE`. -/
theorem rewrites_privilege_revoke (write_data_type : T → List Token)
    (hfixed : Fixed (parse_arg_types parse_data_type))
    {grant_option_for : Bool} {privileges : Privileges} {statement : AccessControlStatement T}
    (h : finish_privilege_revoke features syntaxes parse_data_type grant_option_for privileges ts =
      .ok (statement, rest)) :
    ∃ object grantees granted_by behavior used new,
      statement = .Revoke grant_option_for privileges object grantees granted_by behavior ∧
      Rewrites Same
        (finish_privilege_revoke features syntaxes parse_data_type grant_option_for privileges)
        (finish_privilege_revoke features syntaxes parse_data_type grant_option_for privileges) ts
        statement statement rest used new ∧
      (object.ReadBack parse_data_type write_data_type →
        new = [written "on"] ++ object.tokens write_data_type ++ [written "from"] ++
          comma_list Grantee.tokens grantees ++ granted_by_tokens granted_by ++
          behavior_tokens behavior) := by
  obtain ⟨⟨object, mid⟩, hobject, h⟩ := bind_eq_ok.mp h
  obtain ⟨⟨⟨⟩, mid'⟩, hfrom, h⟩ := bind_eq_ok.mp h
  obtain ⟨⟨grantees, mid''⟩, hgrantees, h⟩ := bind_eq_ok.mp h
  obtain ⟨⟨granted_by, behind⟩, hgranted, h⟩ := bind_eq_ok.mp h
  obtain ⟨⟨behavior, last⟩, hbehavior, heq⟩ := bind_eq_ok.mp h
  cases heq
  obtain ⟨_, new, hone, hnew⟩ := rewrites_grant_object write_data_type hfixed hobject
  obtain ⟨_, htwo⟩ := rewrites_expect separators (spelled_written (by decide)) hfrom
  obtain ⟨_, hthree⟩ := rewrites_grantees hgrantees
  obtain ⟨_, hfour⟩ := rewrites_granted_by hgranted
  obtain ⟨_, hfive⟩ := rewrites_behavior hbehavior
  refine ⟨object, grantees, granted_by, behavior, _, _, rfl,
    hone.bind (htwo.bind (hthree.bind (hfour.bind (hfive.bind_pure
      (AccessControlStatement.Revoke grant_option_for privileges object grantees
        granted_by))))), ?_⟩
  intro hgood
  rw [hnew hgood]
  simp only [List.append_assoc]

theorem rewrites_role_revoke {admin_option_for : Bool} {elements : List GrantElement}
    {statement : AccessControlStatement T}
    (h : finish_role_revoke features admin_option_for elements ts = .ok (statement, rest)) :
    (∀ element ∈ elements, element.columns = []) ∧
    ∃ grantees granted_by behavior used new,
      statement = .RevokeRole admin_option_for (elements.map GrantElement.word) grantees granted_by
        behavior ∧
      Rewrites Same (finish_role_revoke features admin_option_for elements)
        (finish_role_revoke features admin_option_for elements) ts statement statement rest used
        new ∧
      new = comma_list Grantee.tokens grantees ++ granted_by_tokens granted_by ++
        behavior_tokens behavior := by
  obtain ⟨⟨roles, mid⟩, hroles, h⟩ := bind_eq_ok.mp h
  obtain ⟨⟨grantees, mid'⟩, hgrantees, h⟩ := bind_eq_ok.mp h
  obtain ⟨⟨granted_by, behind⟩, hgranted, h⟩ := bind_eq_ok.mp h
  obtain ⟨⟨behavior, last⟩, hbehavior, heq⟩ := bind_eq_ok.mp h
  cases heq
  obtain ⟨hcolumns, rfl, hone⟩ := roles_of_elements hroles
  obtain ⟨_, htwo⟩ := rewrites_grantees hgrantees
  obtain ⟨_, hthree⟩ := rewrites_granted_by hgranted
  obtain ⟨_, hfour⟩ := rewrites_behavior hbehavior
  refine ⟨hcolumns, grantees, granted_by, behavior, _, _, rfl, hone.bind (htwo.bind
    (hthree.bind (hfour.bind_pure (AccessControlStatement.RevokeRole admin_option_for
      (elements.map GrantElement.word) grantees granted_by)))), ?_⟩
  simp only [List.nil_append, List.append_assoc]

/-- What is revoked, and its canonical text behind the prefixes. -/
theorem rewrites_revoked (hfixed : Fixed (parse_arg_types parse_data_type))
    {grant_option_for admin_option_for : Bool} {statement : AccessControlStatement T}
    (h : parse_revoked features syntaxes parse_data_type grant_option_for admin_option_for ts =
      .ok (statement, rest)) :
    statement.canonical = statement ∧
    ∃ used new,
      Rewrites Same
        (parse_revoked features syntaxes parse_data_type grant_option_for admin_option_for)
        (parse_revoked features syntaxes parse_data_type grant_option_for admin_option_for) ts
        statement statement rest used new ∧
      (statement.ReadBack parse_data_type write_data_type →
        statement.tokens write_data_type =
          written "revoke" :: (option_for_tokens "grant" grant_option_for ++
            (option_for_tokens "admin" admin_option_for ++ new))) := by
  obtain ⟨⟨elements, mid⟩, helements, htail⟩ := bind_eq_ok.mp h
  dsimp only at htail
  rw [bind_apply, look_apply, bind_ok] at htail
  cases hon : (!admin_option_for && mid.head?.any (token_is_contextual_keyword "on")) with
  | true =>
    rw [hon, if_pos rfl] at htail
    obtain ⟨hadmin, -⟩ := Bool.and_eq_true_iff.mp hon
    rw [Bool.not_eq_true'] at hadmin
    subst hadmin
    obtain ⟨used, hone⟩ := rewrites_privileges helements
    obtain ⟨object, grantees, granted_by, behavior, used', new, rfl, htwo, hnew⟩ :=
      rewrites_privilege_revoke write_data_type hfixed htail
    have hsame : privileges_from_elements (elements.map GrantElement.canonical) =
        privileges_from_elements elements := by
      simp [privileges_from_elements, canonical_privilege]
    refine ⟨rfl, used ++ used', privileges_tokens (privileges_from_elements elements) ++ new,
      ?_, ?_⟩
    · refine hone.bind (.look (respects_word (by decide)) ?_)
      rw [hon, if_pos rfl, if_pos rfl, hsame]
      exact htwo
    · intro hgood
      rw [hnew hgood]
      simp only [AccessControlStatement.tokens, List.append_assoc]
      rfl
  | false =>
    rw [hon, if_neg Bool.false_ne_true] at htail
    cases grant_option_for with
    | true => cases htail
    | false =>
      rw [if_neg Bool.false_ne_true] at htail
      obtain ⟨⟨taken, behind⟩, heat, htail⟩ := bind_eq_ok.mp htail
      cases taken with
      | false => cases htail
      | true =>
        obtain ⟨hcolumns, grantees, granted_by, behavior, used', new, rfl, hthree, rfl⟩ :=
          rewrites_role_revoke htail
        obtain ⟨used, hone⟩ := rewrites_roles hcolumns helements
        obtain ⟨used'', htwo⟩ := rewrites_eat_true separators (spelled_written (by decide)) heat
        refine ⟨rfl, used ++ (used'' ++ used'),
          comma_list (fun role => [expr.ident_token role]) (elements.map GrantElement.word) ++
            ([written "from"] ++ (comma_list Grantee.tokens grantees ++
              granted_by_tokens granted_by ++ behavior_tokens behavior)), ?_, ?_⟩
        · refine hone.bind (.look (respects_word (by decide)) ?_)
          rw [hon, if_neg Bool.false_ne_true, if_neg Bool.false_ne_true]
          exact htwo.bind hthree
        · intro _
          simp only [AccessControlStatement.tokens, List.append_assoc]
          rfl

/-! ## Prefixes -/

theorem privilege_word_run {word : Ident} {kind : Option PrivilegeKind}
    (h : parse_privilege_or_role_word features ts = .ok ((word, kind), rest)) :
    ∃ t, ts = t :: rest := by
  rw [parse_privilege_or_role_word, token_apply] at h
  cases ts with
  | nil => cases h
  | cons t ts =>
    cases hmeans : privilege_or_role_word features t with
    | none => simp [hmeans] at h
    | some found =>
      simp only [List.head?_cons, Option.bind_some, hmeans, Option.elim_some, List.tail_cons,
        Except.ok.injEq, Prod.mk.injEq] at h
      exact ⟨t, by rw [h.2]⟩

/-- A list with a plain word behind its first word ends there. -/
theorem elements_end {elements : List GrantElement} {mid : List Token} {word : String}
    (h : parse_grant_element_list features ts = .ok (elements, mid))
    (hword : peek_nth_is_contextual_keyword 1 word ts = true) : mid = ts.tail := by
  obtain ⟨⟨element, behind⟩, helement, htail⟩ := bind_eq_ok.mp h
  obtain ⟨⟨⟨name, kind⟩, tail⟩, hname, hlast⟩ := bind_eq_ok.mp helement
  obtain ⟨t, rfl⟩ := privilege_word_run hname
  have hspelled : ∃ c more, tail = c :: more ∧ spelled c = some word.toList := by
    cases tail with
    | nil => cases hword
    | cons c more => exact ⟨c, more, rfl, beq_iff_eq.mp hword⟩
  obtain ⟨c, more, rfl, hc⟩ := hspelled
  have hpunct : ∀ punct, c ≠ .punctuation punct := by
    rintro punct rfl
    cases hc
  have hcolumns : parse_optional_column_list features (c :: more) = .ok ([], c :: more) := by
    have heat : eat_punct .LParen (c :: more) = .ok (false, c :: more) :=
      accept_apply_false (beq_false_of_ne (hpunct _))
    rw [parse_optional_column_list, bind_apply, heat]
    rfl
  have hcomma : comma_turn (parse_grant_element features) (c :: more) = .ok (none, c :: more) := by
    have heat : eat_punct .Comma (c :: more) = .ok (false, c :: more) :=
      accept_apply_false (beq_false_of_ne (hpunct _))
    rw [comma_turn, bind_apply, heat]
    rfl
  dsimp only at hlast
  rw [bind_apply, hcolumns] at hlast
  cases hlast
  dsimp only at htail
  rw [bind_apply, many_stop hcomma] at htail
  cases htail
  rfl

/-- What is revoked is not led by a prefix. -/
theorem revoked_no_option {grant_option_for admin_option_for : Bool}
    {statement : AccessControlStatement T}
    (h : parse_revoked features syntaxes parse_data_type grant_option_for admin_option_for ts =
      .ok (statement, rest)) : peek_nth_is_contextual_keyword 1 "option" ts = false := by
  obtain ⟨⟨elements, mid⟩, helements, htail⟩ := bind_eq_ok.mp h
  rw [← Bool.not_eq_true]
  intro hoption
  have hmid := elements_end helements hoption
  have hother : ∀ word, word ≠ "option" →
      mid.head?.any (token_is_contextual_keyword word) = false := by
    intro word hne
    cases ts with
    | nil => cases hoption
    | cons t ts =>
      cases ts with
      | nil => cases hoption
      | cons c more =>
        have hc : spelled c = some "option".toList := beq_iff_eq.mp hoption
        rw [hmid, List.tail_cons, List.head?_cons, Option.any_some, is_contextual_keyword hc]
        exact beq_false_of_ne (Ne.symm hne)
  dsimp only at htail
  rw [bind_apply, look_apply, bind_ok, hother "on" (by decide), Bool.and_false,
    if_neg Bool.false_ne_true] at htail
  cases grant_option_for with
  | true => cases htail
  | false =>
    have heat : eat_contextual_keyword "from" mid = .ok (false, mid) :=
      accept_apply_false (hother "from" (by decide))
    rw [if_neg Bool.false_ne_true, bind_apply, heat] at htail
    cases htail

theorem option_for_none {word : String}
    (h : (peek_is_contextual_keyword word ts && peek_nth_is_contextual_keyword 1 "option" ts) =
      false) : parse_option_for word ts = .ok (false, ts) := by
  rw [parse_option_for, bind_apply, look_apply, bind_ok, h]
  rfl

theorem option_for_false {word : String} (h : parse_option_for word ts = .ok (false, rest)) :
    rest = ts := by
  rw [parse_option_for, bind_apply, look_apply, bind_ok] at h
  split at h
  · obtain ⟨⟨⟨⟩, _⟩, -, h⟩ := bind_eq_ok.mp h
    obtain ⟨⟨⟨⟩, _⟩, -, h⟩ := bind_eq_ok.mp h
    obtain ⟨⟨⟨⟩, _⟩, -, heq⟩ := bind_eq_ok.mp h
    cases heq
  · cases h
    rfl

/-- A prefix is read where it is written, and none in front of anything else. -/
theorem option_for_written {word : String} (hword : word ∈ words) (option_for : Bool)
    (hnone : option_for = false →
      (peek_is_contextual_keyword word rest && peek_nth_is_contextual_keyword 1 "option" rest) =
        false) :
    parse_option_for word (option_for_tokens word option_for ++ rest) = .ok (option_for, rest) := by
  cases option_for with
  | false => exact option_for_none (hnone rfl)
  | true =>
    have hspelled := spelled_written hword
    have hoption : spelled (written "option") = some "option".toList := spelled_written (by decide)
    have hfor : spelled (written "for") = some "for".toList := spelled_written (by decide)
    have hlook : (peek_is_contextual_keyword word
          (written word :: written "option" :: written "for" :: rest) &&
        peek_nth_is_contextual_keyword 1 "option"
          (written word :: written "option" :: written "for" :: rest)) = true := by
      rw [peek_contextual_cons hspelled, beq_self_eq_true, Bool.true_and]
      exact beq_iff_eq.mpr hoption
    have htokens : option_for_tokens word true ++ rest =
        written word :: written "option" :: written "for" :: rest := rfl
    rw [htokens, parse_option_for, bind_apply, look_apply, bind_ok, hlook, if_pos rfl, bind_apply,
      expect_apply hspelled, bind_ok, bind_apply, expect_apply hoption, bind_ok, bind_apply,
      expect_apply hfor]
    rfl

/-- The prefixes of a `REVOKE`, and what is revoked behind them. -/
theorem revoke_kind_prefixes {statement : AccessControlStatement T}
    (h : parse_revoke_kind features syntaxes parse_data_type ts = .ok (statement, rest)) :
    ∃ grant_option_for admin_option_for mid,
      (grant_option_for && admin_option_for) = false ∧
      (!syntaxes.access_control_extended_objects && (grant_option_for || admin_option_for)) =
        false ∧
      (grant_option_for = false → admin_option_for = false → mid = ts) ∧
      parse_revoked features syntaxes parse_data_type grant_option_for admin_option_for mid =
        .ok (statement, rest) := by
  obtain ⟨⟨grant_option_for, behind⟩, hgrant, h⟩ := bind_eq_ok.mp h
  obtain ⟨⟨admin_option_for, mid⟩, hadmin, h⟩ := bind_eq_ok.mp h
  cases hgate : (!syntaxes.access_control_extended_objects &&
      (grant_option_for || admin_option_for)) with
  | true =>
    simp only [hgate] at h
    cases h
  | false =>
    simp only [hgate] at h
    cases grant_option_for with
    | true =>
      cases hadmin
      exact ⟨true, false, _, rfl, hgate, nofun, h⟩
    | false =>
      refine ⟨false, admin_option_for, mid, rfl, hgate, ?_, h⟩
      rintro - rfl
      exact (option_for_false hadmin).trans (option_for_false hgrant)

theorem revoke_kind_written {grant_option_for admin_option_for : Bool}
    {statement : AccessControlStatement T}
    (hone : (grant_option_for && admin_option_for) = false)
    (hgate : (!syntaxes.access_control_extended_objects &&
      (grant_option_for || admin_option_for)) = false)
    (h : parse_revoked features syntaxes parse_data_type grant_option_for admin_option_for ts =
      .ok (statement, rest)) :
    parse_revoke_kind features syntaxes parse_data_type
      (option_for_tokens "grant" grant_option_for ++
        (option_for_tokens "admin" admin_option_for ++ ts)) = .ok (statement, rest) := by
  have hnone := revoked_no_option h
  have hgrant : parse_option_for "grant" (option_for_tokens "grant" grant_option_for ++
      (option_for_tokens "admin" admin_option_for ++ ts)) =
      .ok (grant_option_for, option_for_tokens "admin" admin_option_for ++ ts) := by
    refine option_for_written (by decide) _ ?_
    intro _
    cases admin_option_for with
    | false => exact Bool.and_eq_false_iff.mpr (.inr hnone)
    | true =>
      refine Bool.and_eq_false_iff.mpr (.inl ?_)
      exact peek_contextual_cons (spelled_written (by decide)) _ _
  have hadmin : (if grant_option_for then return false else parse_option_for "admin")
      (option_for_tokens "admin" admin_option_for ++ ts) = .ok (admin_option_for, ts) := by
    cases grant_option_for with
    | true =>
      have hfalse : admin_option_for = false := hone
      rw [hfalse]
      rfl
    | false =>
      refine option_for_written (by decide) _ ?_
      intro _
      exact Bool.and_eq_false_iff.mpr (.inr hnone)
  rw [parse_revoke_kind, bind_apply, hgrant, bind_ok, bind_apply, hadmin, bind_ok]
  dsimp only
  rw [hgate]
  exact h

/-! ## Statements -/

/-- The canonical text of a statement is read as the statement. -/
theorem statement_reparses (hfixed : Fixed (parse_arg_types parse_data_type))
    (hrest : rest.head? ≠ some (.punctuation .Dot)) {statement : AccessControlStatement T}
    (h : parse_access_control_statement features syntaxes parse_data_type ts =
      .ok (statement, rest))
    (hgood : statement.ReadBack parse_data_type write_data_type) :
    parse_access_control_statement features syntaxes parse_data_type
      (statement.tokens write_data_type ++ rest) = .ok (statement.canonical, rest) := by
  have halike : Same rest.head? rest.head? := ⟨hrest, rfl⟩
  have hgrant : spelled (written "grant") = some "grant".toList := spelled_written (by decide)
  have hrevoke : spelled (written "revoke") = some "revoke".toList := spelled_written (by decide)
  obtain ⟨⟨taken, mid⟩, -, h⟩ := bind_eq_ok.mp h
  cases taken with
  | true =>
    obtain ⟨used, new, hall, htokens⟩ := rewrites_grant_kind hfixed h
    rw [htokens hgood, List.cons_append, parse_access_control_statement,
      eat_contextual_same hgrant, if_pos rfl]
    exact hall.written rest halike
  | false =>
    obtain ⟨⟨taken, mid'⟩, -, h⟩ := bind_eq_ok.mp h
    cases taken with
    | false => cases h
    | true =>
      obtain ⟨grant_option_for, admin_option_for, behind, hone, hgate, -, hrevoked⟩ :=
        revoke_kind_prefixes h
      obtain ⟨hcanonical, used, new, hall, htokens⟩ := rewrites_revoked hfixed hrevoked
      have hnew := revoke_kind_written hone hgate (hall.written rest halike)
      rw [htokens hgood, hcanonical, List.cons_append, parse_access_control_statement,
        eat_contextual_other hrevoke (by decide), if_neg Bool.false_ne_true,
        eat_contextual_same hrevoke, if_pos rfl, List.append_assoc, List.append_assoc]
      exact hnew

end squonk.parser.clause.access_control
