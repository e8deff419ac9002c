import Squonk.Parser.Clause.AccessControl

/-!
# Writing access-control statements

What each reader of a `GRANT` or `REVOKE` takes can be written in front of every rest that starts
alike, with `TO` and `FROM` for one word.
-/

open squonk.ast squonk.tokenizer squonk.dialect listing listing.Reader

namespace squonk.parser.clause.access_control

/-- The words in front of the grantees. -/
def separators : List String := ["to", "from"]

abbrev Same := Alike separators

variable {T : Type} {features : FeatureSet} {syntaxes : AccessControlSyntax}
  {ts rest : List Token}

/-! ## The leading list -/

theorem rewrites_ident {error : String} {name : Ident}
    (h : token (expr.column_name features) error ts = .ok (name, rest)) :
    ∃ used, Rewrites Same (token (expr.column_name features) error)
      (token (expr.column_name features) error) ts name name rest used [expr.ident_token name] :=
  rewrites_token separators (fun _ _ => expr.column_name_token) rfl h

theorem rewrites_columns {columns : List Ident}
    (h : parse_optional_column_list features ts = .ok (columns, rest)) :
    ∃ used, Rewrites Same (parse_optional_column_list features)
      (parse_optional_column_list features) ts columns columns rest used
      (privilege_columns columns) := by
  obtain ⟨⟨taken, mid⟩, heat, h⟩ := bind_eq_ok.mp h
  obtain ⟨used, hparen⟩ := rewrites_eat_punct separators (by decide) heat
  cases taken with
  | false =>
    cases h
    exact ⟨_, hparen.bind (.pure [] [])⟩
  | true =>
    obtain ⟨⟨names, behind⟩, hnames, h⟩ := bind_eq_ok.mp h
    obtain ⟨⟨⟨⟩, last⟩, hclose, heq⟩ := bind_eq_ok.mp h
    cases heq
    obtain ⟨used', hlist⟩ := rewrites_comma_list separators (fun _ _ _ => rewrites_ident) hnames
    obtain ⟨used'', hparen'⟩ := rewrites_punct separators (by decide) hclose
    have hall : Rewrites Same (parse_optional_column_list features)
        (parse_optional_column_list features) ts columns columns rest (used ++ (used' ++ used''))
        ([.lparen] ++
          (comma_list (fun column => [expr.ident_token column]) columns ++ [.rparen])) :=
      hparen.bind (hlist.bind (hparen'.bind_pure fun _ => columns))
    have hwrite : privilege_columns columns = [.lparen] ++
        (comma_list (fun column => [expr.ident_token column]) columns ++ [.rparen]) := by
      cases columns with
      | nil =>
        obtain ⟨⟨_, _⟩, _, h⟩ := bind_eq_ok.mp hnames
        obtain ⟨⟨_, _⟩, _, heq⟩ := bind_eq_ok.mp h
        cases heq
      | cons column columns => simp [privilege_columns]
    rw [hwrite]
    exact ⟨_, hall⟩

/-- A built-in privilege under the word it is written with. -/
def PrivilegeKind.name (kind : PrivilegeKind) : Ident := (label (written kind.word)).getD (.Word [])

/-- What the element of a list of privileges reads as once it is written. -/
def GrantElement.canonical (element : GrantElement) : GrantElement :=
  { element with word := element.kind.elim element.word PrivilegeKind.name }

theorem canonical_privilege (element : GrantElement) :
    element.canonical.as_privilege = element.as_privilege := by
  cases element with
  | mk word kind columns => cases kind <;> rfl

/-- What stands in the tables is in lower case. -/
theorem tables_lower :
    (∀ entry ∈ KNOWN, in_lower_case entry.1.toList = true) ∧
    (∀ entry ∈ named_object_kinds, in_lower_case entry.1.toList = true) ∧
    (∀ entry ∈ routine_object_kinds, in_lower_case entry.1.toList = true) ∧
    (∀ entry ∈ schema_object_kinds, in_lower_case entry.1.toList = true) ∧
    (∀ entry ∈ role_specs, in_lower_case entry.1.toList = true) ∧
    ∀ entry ∈ revoke_behaviors, in_lower_case entry.1.toList = true := by
  have hspelled : ∃ texts, letters.Letters (KNOWN.map Prod.fst ++
      (named_object_kinds.map Prod.fst ++ (routine_object_kinds.map Prod.fst ++
        (schema_object_kinds.map Prod.fst ++ (role_specs.map Prod.fst ++
          revoke_behaviors.map Prod.fst))))) texts ∧ texts.all in_lower_case = true := by
    apply Exists.intro
    apply And.intro
    · simp only [KNOWN, named_object_kinds, routine_object_kinds, schema_object_kinds, role_specs,
        revoke_behaviors, List.map_cons, List.map_nil, List.cons_append, List.nil_append]
      repeat apply letters.Letters.cons rfl
      exact .nil
    · decide +kernel
  obtain ⟨_, htexts, hlower⟩ := hspelled
  have hall := htexts.all hlower
  simp only [List.forall_mem_append, List.forall_mem_map] at hall
  exact hall

theorem label_written (word : String) : (label (written word)).isSome = true := by
  unfold written
  split
  · rfl
  · rfl

theorem known_word : ∀ entry ∈ KNOWN, entry.1 = entry.2.word ∧
    spelled (written entry.1) = some entry.1.toList ∧
    table_value KNOWN (written entry.1) = some entry.2 ∧
    (label (written entry.1)).isSome = true := by
  intro entry hentry
  have hwords : ∀ entry ∈ KNOWN, entry.1 = entry.2.word := by simp [KNOWN, PrivilegeKind.word]
  obtain ⟨hspelled, hvalue⟩ :=
    table_value_written tables_lower.1 (by simp [KNOWN]) entry hentry
  exact ⟨hwords entry hentry, hspelled, hvalue, label_written entry.1⟩

theorem role_word_token {t : Token} {word : Ident} {kind : Option PrivilegeKind}
    (h : privilege_or_role_word features t = some (word, kind)) :
    t = expr.ident_token word ∧ table_value KNOWN t = kind := by
  cases hknown : table_value KNOWN t with
  | some known =>
    rw [privilege_or_role_word, hknown] at h
    obtain ⟨name, hname, heq⟩ := Option.map_eq_some_iff.mp h
    cases heq
    exact ⟨label_token hname, rfl⟩
  | none =>
    rw [privilege_or_role_word, hknown] at h
    obtain ⟨name, hname, heq⟩ := Option.map_eq_some_iff.mp h
    cases heq
    exact ⟨expr.column_name_token hname, rfl⟩

theorem dot_no_word : privilege_or_role_word features (.punctuation .Dot) = none := rfl

/-- A built-in privilege is written as its word. -/
theorem rewrites_privilege_word {word : Ident} {kind : Option PrivilegeKind}
    (h : parse_privilege_or_role_word features ts = .ok ((word, kind), rest)) :
    ∃ used, Rewrites Same (parse_privilege_or_role_word features)
      (parse_privilege_or_role_word features) ts (word, kind)
      (kind.elim word PrivilegeKind.name, kind) rest used
      [kind.elim (expr.ident_token word) fun kind => written kind.word] := by
  have hmeans : ∀ t (a : Ident × Option PrivilegeKind),
      privilege_or_role_word features t = some a →
      privilege_or_role_word features
          (a.2.elim (expr.ident_token a.1) fun kind => written kind.word) =
        some (a.2.elim a.1 PrivilegeKind.name, a.2) ∧
      (t = (a.2.elim (expr.ident_token a.1) fun kind => written kind.word) ∨
        (spelled t).isSome = true ∧
          spelled t = spelled (a.2.elim (expr.ident_token a.1) fun kind => written kind.word)) := by
    rintro t ⟨word, kind⟩ ht
    obtain ⟨htoken, hkind⟩ := role_word_token ht
    cases kind with
    | none => exact ⟨htoken ▸ ht, .inl htoken⟩
    | some kind =>
      obtain ⟨known, hentry, hspelled⟩ := table_value_eq_some hkind
      obtain ⟨hword, hwritten, hvalue, hlabel⟩ := known_word _ hentry
      dsimp only at hword hwritten hvalue hlabel
      subst hword
      refine ⟨?_, .inr ⟨by rw [hspelled]; rfl, hspelled.trans hwritten.symm⟩⟩
      obtain ⟨name, hname⟩ := Option.isSome_iff_exists.mp hlabel
      simp only [privilege_or_role_word, Option.elim_some, hvalue, PrivilegeKind.name, hname,
        Option.map_some, Option.getD_some]
  exact rewrites_token_as separators hmeans dot_no_word h

/-- As a role, every word is written as it stood. -/
theorem rewrites_role_word {word : Ident} {kind : Option PrivilegeKind}
    (h : parse_privilege_or_role_word features ts = .ok ((word, kind), rest)) :
    ∃ used, Rewrites Same (parse_privilege_or_role_word features)
      (parse_privilege_or_role_word features) ts (word, kind) (word, kind) rest used
      [expr.ident_token word] := by
  have hmeans : ∀ t (a : Ident × Option PrivilegeKind),
      privilege_or_role_word features t = some a → t = expr.ident_token a.1 :=
    fun _ _ ht => (role_word_token ht).1
  exact rewrites_token separators hmeans dot_no_word h

/-- An element, with its word written by `word_of` and read back for `f`. -/
theorem rewrites_element_word {f : Ident × Option PrivilegeKind → Ident × Option PrivilegeKind}
    {word_of : Ident × Option PrivilegeKind → Token} {element : GrantElement}
    (hword : ∀ ts a rest, parse_privilege_or_role_word features ts = .ok (a, rest) →
      ∃ used, Rewrites Same (parse_privilege_or_role_word features)
        (parse_privilege_or_role_word features) ts a (f a) rest used [word_of a])
    (h : parse_grant_element features ts = .ok (element, rest)) :
    ∃ used, Rewrites Same (parse_grant_element features) (parse_grant_element features) ts element
      ⟨(f (element.word, element.kind)).1, (f (element.word, element.kind)).2, element.columns⟩
      rest used ([word_of (element.word, element.kind)] ++ privilege_columns element.columns) := by
  obtain ⟨⟨⟨word, kind⟩, mid⟩, hhead, h⟩ := bind_eq_ok.mp h
  obtain ⟨⟨columns, behind⟩, hcolumns, heq⟩ := bind_eq_ok.mp h
  cases heq
  obtain ⟨used, hone⟩ := hword _ _ _ hhead
  obtain ⟨used', hlist⟩ := rewrites_columns hcolumns
  have htail : Rewrites Same (do return ⟨word, kind, ← parse_optional_column_list features⟩)
      (do return ⟨(f (word, kind)).1, (f (word, kind)).2,
        ← parse_optional_column_list features⟩) mid
      (⟨word, kind, columns⟩ : GrantElement) ⟨(f (word, kind)).1, (f (word, kind)).2, columns⟩ rest
      used' (privilege_columns columns) := hlist.bind_last (.pure _ _)
  exact ⟨used ++ used', hone.bind htail⟩

theorem comma_list_map {α β : Type} (write : β → List Token) (f : α → β) (as : List α) :
    comma_list write (as.map f) = comma_list (fun a => write (f a)) as := by
  cases as with
  | nil => rfl
  | cons a as => simp [comma_list, List.flatMap_map]

/-- The list, read for privileges, is written as privileges. -/
theorem rewrites_privileges {elements : List GrantElement}
    (h : parse_grant_element_list features ts = .ok (elements, rest)) :
    ∃ used, Rewrites Same (parse_grant_element_list features) (parse_grant_element_list features)
      ts elements (elements.map GrantElement.canonical) rest used
      (privileges_tokens (privileges_from_elements elements)) := by
  have hitem : ∀ ts a rest, parse_grant_element features ts = .ok (a, rest) → ∃ used new,
      Rewrites Same (parse_grant_element features) (parse_grant_element features) ts a a.canonical
        rest used new ∧ (True → new = a.as_privilege.tokens) := by
    intro ts element rest h
    obtain ⟨used, hone⟩ := rewrites_element_word
      (fun _ _ _ hword => rewrites_privilege_word hword) h
    refine ⟨used, _, hone, fun _ => ?_⟩
    cases element with
    | mk word kind columns => cases kind <;> rfl
  obtain ⟨used, new, hall, hnew⟩ := rewrites_comma_separated separators hitem h
  refine ⟨used, ?_⟩
  rw [privileges_from_elements, privileges_tokens, comma_list_map, ← hnew fun _ _ => trivial]
  exact hall

/-- The list, read for roles, is written as it stood. -/
theorem rewrites_roles {elements : List GrantElement}
    (hcolumns : ∀ element ∈ elements, element.columns = [])
    (h : parse_grant_element_list features ts = .ok (elements, rest)) :
    ∃ used, Rewrites Same (parse_grant_element_list features) (parse_grant_element_list features)
      ts elements elements rest used
      (comma_list (fun role => [expr.ident_token role]) (elements.map GrantElement.word)) := by
  have hitem : ∀ ts a rest, parse_grant_element features ts = .ok (a, rest) → ∃ used new,
      Rewrites Same (parse_grant_element features) (parse_grant_element features) ts a (id a)
        rest used new ∧ (a.columns = [] → new = [expr.ident_token a.word]) := by
    intro ts element rest h
    obtain ⟨used, hone⟩ := rewrites_element_word (f := id)
      (fun _ _ _ hword => rewrites_role_word hword) h
    refine ⟨used, _, hone, fun hnone => ?_⟩
    rw [hnone]
    rfl
  obtain ⟨used, new, hall, hnew⟩ := rewrites_comma_separated separators hitem h
  rw [List.map_id, hnew hcolumns] at hall
  rw [comma_list_map]
  exact ⟨used, hall⟩

/-! ## Names -/

section
variable {part : Token → Option Name} {follows : Token → Bool} {error : String}

/-- A dotted name is written as it stood. -/
theorem rewrites_dotted {head : Token → Option Name}
    (hhead : ∀ t name, head t = some name → t = name.token)
    (hdot : head (.punctuation .Dot) = none)
    (hpart : ∀ t name, part t = some name → t = name.token) {name : ObjectName}
    (h : parse_dotted head part follows error ts = .ok (name, rest)) :
    ∃ used, Rewrites Same (parse_dotted head part follows error)
      (parse_dotted head part follows error) ts name name rest used (object_name_tokens name) := by
  obtain ⟨hsplit, ⟨first, parts, rfl, hfirst⟩, hruns⟩ := dotted_eq_ok hhead hpart h
  have hne : first.token ≠ .punctuation .Dot := by
    intro heq
    rw [heq, hdot] at hfirst
    cases hfirst
  have hfront : ∀ rest', Same rest.head? rest'.head? →
      Same ts.head? (object_name_tokens (first :: parts) ++ rest').head? ∧
        Same ts.head? (object_name_tokens (first :: parts) ++ rest').head? := by
    intro rest' _
    rw [hsplit]
    exact ⟨alike_self hne, alike_self hne⟩
  have hrun : ∀ rest', Same rest.head? rest'.head? → parse_dotted head part follows error
      (object_name_tokens (first :: parts) ++ rest') = .ok (first :: parts, rest') := by
    intro rest' halike
    apply hruns
    intro hdot'
    rw [hdot'] at halike
    exact halike.1 (lead_eq_dot halike.2)
  exact ⟨_, hsplit, hfront, hrun, hrun⟩

end

theorem string_or_token {t : Token} {name : Name} {part : Token → Option Name}
    (hpart : ∀ t name, part t = some name → t = name.token)
    (h : (string_alias t).or (part t) = some name) : t = name.token := by
  obtain hstring | ⟨-, hname⟩ := Option.or_eq_some_iff.mp h
  · exact string_alias_token hstring
  · exact hpart t name hname

theorem rewrites_object_name {name : ObjectName}
    (h : parse_object_name features syntaxes.reserved_as_label ts = .ok (name, rest)) :
    ∃ used, Rewrites Same (parse_object_name features syntaxes.reserved_as_label)
      (parse_object_name features syntaxes.reserved_as_label) ts name name rest used (object_name_tokens name) :=
  rewrites_dotted (fun _ _ => column_part_token) rfl (fun _ _ => label_part_token) h

theorem rewrites_relation_target_name {name : ObjectName}
    (h : parse_relation_target_name features syntaxes ts = .ok (name, rest)) :
    ∃ used, Rewrites Same (parse_relation_target_name features syntaxes)
      (parse_relation_target_name features syntaxes) ts name name rest used
      (object_name_tokens name) := by
  rw [parse_relation_target_name] at h ⊢
  cases hstring : syntaxes.string_literal_identifiers with
  | true =>
    rw [hstring, if_pos rfl] at h
    rw [if_pos rfl]
    exact rewrites_dotted (fun _ _ => string_or_token fun _ _ => column_part_token) rfl
      (fun _ _ => string_or_token fun _ _ => label_part_token) h
  | false =>
    rw [hstring, if_neg Bool.false_ne_true] at h
    rw [if_neg Bool.false_ne_true]
    exact rewrites_object_name h

theorem rewrites_target_relation_name {name : ObjectName}
    (h : parse_target_relation_name features syntaxes ts = .ok (name, rest)) :
    ∃ used, Rewrites Same (parse_target_relation_name features syntaxes)
      (parse_target_relation_name features syntaxes) ts name name rest used
      (object_name_tokens name) := by
  obtain ⟨⟨found, mid⟩, hname, h⟩ := bind_eq_ok.mp h
  obtain ⟨used, hone⟩ := rewrites_relation_target_name hname
  by_cases hdeep : (!syntaxes.catalog_qualified_names && found.length > 2) = true
  · simp only [hdeep, if_true] at h
    cases h
  · simp only [hdeep] at h
    cases h
    refine ⟨used, hone.bind_last ?_⟩
    simp only [hdeep]
    exact .pure name name

theorem rewrites_object_names {names : List ObjectName}
    (h : parse_object_name_list features syntaxes ts = .ok (names, rest)) :
    ∃ used, Rewrites Same (parse_object_name_list features syntaxes)
      (parse_object_name_list features syntaxes) ts names names rest used
      (comma_list object_name_tokens names) :=
  rewrites_comma_list separators (fun _ _ _ => rewrites_object_name) h

/-! ## Objects -/

/-- The types are taken again where they are written. -/
def ReadBack (parse_data_type : ParseResult T) (write_data_type : T → List Token)
    (types : List T) : Prop :=
  ∀ rest, parse_arg_types parse_data_type (arg_types_tokens write_data_type types ++ rest) =
    .ok (types, rest)

section
variable {parse_data_type : ParseResult T} {write_data_type : T → List Token}

def RoutineSignature.ReadBack (parse_data_type : ParseResult T) (write_data_type : T → List Token)
    (self : RoutineSignature T) : Prop :=
  ∀ types ∈ self.arg_types, access_control.ReadBack parse_data_type write_data_type types

theorem rewrites_arg_types (hfixed : Fixed (parse_arg_types parse_data_type))
    {arg_types : Option (List T)}
    (h : parse_optional_arg_types syntaxes parse_data_type ts = .ok (arg_types, rest)) :
    ∃ used new, Rewrites Same (parse_optional_arg_types syntaxes parse_data_type)
      (parse_optional_arg_types syntaxes parse_data_type) ts arg_types arg_types rest used new ∧
      ((∀ types ∈ arg_types, ReadBack parse_data_type write_data_type types) →
        new = arg_types.toList.flatMap fun types =>
          [.lparen] ++ arg_types_tokens write_data_type types) := by
  rw [parse_optional_arg_types] at h ⊢
  cases hgate : syntaxes.routine_arg_types with
  | false =>
    simp only [hgate] at h
    cases h
    exact ⟨[], [], .bind (.pure false false) (.pure none none), fun _ => rfl⟩
  | true =>
    rw [hgate, if_pos rfl] at h
    rw [if_pos rfl]
    obtain ⟨⟨taken, mid⟩, heat, h⟩ := bind_eq_ok.mp h
    cases taken with
    | false =>
      cases h
      obtain ⟨used, hnone⟩ := rewrites_eat_punct separators (by decide) heat
      exact ⟨used, [], hnone.bind_last (.pure none none), fun _ => rfl⟩
    | true =>
      obtain ⟨t, rfl, ht⟩ := accept_eq_true heat
      have hparen : t = .lparen := beq_iff_eq.mp ht
      subst hparen
      obtain ⟨⟨types, behind⟩, htypes, heq⟩ := bind_eq_ok.mp h
      cases heq
      obtain ⟨used, rfl, -, hused⟩ := hfixed _ _ _ htypes
      have hfront : ∀ ts : List Token, Same (some .lparen) (Token.lparen :: ts).head? :=
        fun _ => alike_self (by decide)
      have hrun : ∀ new : List Token,
          (∀ rest, parse_arg_types parse_data_type (new ++ rest) = .ok (types, rest)) →
          ∀ rest', (do
            if ← eat_punct .LParen then return some (← parse_arg_types parse_data_type)
            else return none : ParseResult (Option (List T))) (.lparen :: new ++ rest') =
              .ok (some types, rest') := by
        intro new hnew rest'
        simp [eat_punct, hnew]
      by_cases hgood : ReadBack parse_data_type write_data_type types
      · refine ⟨.lparen :: used, .lparen :: arg_types_tokens write_data_type types, ?_, ?_⟩
        · exact ⟨rfl, fun _ _ => ⟨hfront _, hfront _⟩, fun rest' _ => hrun used hused rest',
            fun rest' _ => hrun _ hgood rest'⟩
        · intro _
          simp
      · refine ⟨.lparen :: used, .lparen :: used, ?_, ?_⟩
        · exact ⟨rfl, fun _ _ => ⟨hfront _, hfront _⟩, fun rest' _ => hrun used hused rest',
            fun rest' _ => hrun used hused rest'⟩
        · intro hall
          exact absurd (hall types rfl) hgood

theorem rewrites_routine_signature (hfixed : Fixed (parse_arg_types parse_data_type))
    {routine : RoutineSignature T}
    (h : parse_routine_signature features syntaxes parse_data_type ts = .ok (routine, rest)) :
    ∃ used new, Rewrites Same (parse_routine_signature features syntaxes parse_data_type)
      (parse_routine_signature features syntaxes parse_data_type) ts routine routine rest used new ∧
      (routine.ReadBack parse_data_type write_data_type →
        new = routine.tokens write_data_type) := by
  obtain ⟨⟨name, mid⟩, hname, h⟩ := bind_eq_ok.mp h
  obtain ⟨⟨arg_types, behind⟩, htypes, heq⟩ := bind_eq_ok.mp h
  cases heq
  obtain ⟨used, hone⟩ := rewrites_target_relation_name hname
  obtain ⟨used', new', htypes', hnew⟩ := rewrites_arg_types hfixed htypes
  refine ⟨_, _, hone.bind (htypes'.bind_pure (RoutineSignature.mk name)), ?_⟩
  intro hgood
  rw [hnew hgood]
  rfl

theorem rewrites_routines (hfixed : Fixed (parse_arg_types parse_data_type))
    {routines : List (RoutineSignature T)}
    (h : parse_routine_signature_list features syntaxes parse_data_type ts = .ok (routines, rest)) :
    ∃ used new, Rewrites Same (parse_routine_signature_list features syntaxes parse_data_type)
      (parse_routine_signature_list features syntaxes parse_data_type) ts routines routines rest
      used new ∧
      ((∀ routine ∈ routines, routine.ReadBack parse_data_type write_data_type) →
        new = comma_list (RoutineSignature.tokens write_data_type) routines) := by
  have hitem : ∀ ts a rest, parse_routine_signature features syntaxes parse_data_type ts =
      .ok (a, rest) → ∃ used new,
      Rewrites Same (parse_routine_signature features syntaxes parse_data_type)
        (parse_routine_signature features syntaxes parse_data_type) ts a (id a) rest used new ∧
      (a.ReadBack parse_data_type write_data_type → new = a.tokens write_data_type) :=
    fun _ _ _ h => rewrites_routine_signature hfixed h
  obtain ⟨used, new, hall, hnew⟩ := rewrites_comma_separated separators hitem h
  rw [List.map_id] at hall
  exact ⟨used, new, hall, hnew⟩

/-- The words of the statements that stand in no table. -/
def words : List String :=
  ["grant", "revoke", "on", "to", "from", "all", "privileges", "with", "admin", "option", "for",
   "granted", "by", "group", "table", "in", "schema", "foreign", "data", "wrapper", "server"]

theorem spelled_written {word : String} (h : word ∈ words) :
    spelled (written word) = some word.toList := by
  have hall : ∃ texts, letters.Letters words texts ∧ texts.all in_lower_case = true := by
    apply Exists.intro
    apply And.intro
    · unfold words
      repeat apply letters.Letters.cons rfl
      exact .nil
    · decide
  obtain ⟨_, hletters, hlower⟩ := hall
  exact spelled_written_lower (hletters.all hlower word h)

theorem rewrites_named_object_kind {kind : Option NamedObjectKind}
    (h : try_parse_named_object_kind ts = .ok (kind, rest)) :
    ∃ used, Rewrites Same try_parse_named_object_kind try_parse_named_object_kind ts kind kind rest
      used (kind.toList.flatMap fun kind => kind.words.map written) := by
  obtain ⟨⟨found, mid⟩, hfound, h⟩ := bind_eq_ok.mp h
  have htable : ∀ entry ∈ named_object_kinds, entry.1 = entry.2.words.headD "" ∧
      entry.1 ∉ separators ∧ spelled (written entry.1) = some entry.1.toList := by
    intro entry hentry
    have hwords : ∀ entry ∈ named_object_kinds, entry.1 = entry.2.words.headD "" ∧
        entry.1 ∉ separators := by
      simp [named_object_kinds, NamedObjectKind.words, separators]
    exact ⟨(hwords entry hentry).1, (hwords entry hentry).2,
      spelled_written_lower (tables_lower.2.1 entry hentry)⟩
  have hword : ∀ entry ∈ named_object_kinds, entry.2.words = [entry.1] := by decide
  obtain ⟨used, hone⟩ := rewrites_optional separators
    (fun kind : NamedObjectKind => kind.words.headD "") htable hfound
  cases found with
  | some found =>
    cases h
    have hmember : ∃ word, (word, found) ∈ named_object_kinds := by
      rw [optional_token_apply] at hfound
      obtain ⟨t, -, hvalue⟩ := Option.bind_eq_some_iff.mp (Prod.mk.inj (Except.ok.inj hfound)).1
      obtain ⟨word, hentry, -⟩ := table_value_eq_some hvalue
      exact ⟨word, hentry⟩
    obtain ⟨word, hentry⟩ := hmember
    have htokens : ((some found).toList.flatMap fun kind : NamedObjectKind =>
        kind.words.map written) =
        (some found).toList.map fun kind : NamedObjectKind => written (kind.words.headD "") := by
      have hone := hword _ hentry
      dsimp only at hone
      simp [hone]
    rw [htokens]
    exact ⟨used, hone.bind_last (.pure (some found) (some found))⟩
  | none =>
    obtain ⟨⟨foreign, mid'⟩, hforeign, h⟩ := bind_eq_ok.mp h
    obtain ⟨used', htwo⟩ :=
      rewrites_eat separators (by decide) (spelled_written (by decide)) hforeign
    cases foreign with
    | false =>
      cases h
      exact ⟨_, hone.bind (htwo.bind (.pure none none))⟩
    | true =>
      obtain ⟨⟨data, mid''⟩, hdata, h⟩ := bind_eq_ok.mp h
      obtain ⟨used'', hthree⟩ :=
        rewrites_eat separators (by decide) (spelled_written (by decide)) hdata
      cases data with
      | true =>
        obtain ⟨⟨⟨⟩, last⟩, hlast, heq⟩ := bind_eq_ok.mp h
        cases heq
        obtain ⟨_, hfour⟩ := rewrites_expect separators (spelled_written (by decide)) hlast
        exact ⟨_, hone.bind (htwo.bind (hthree.bind (hfour.bind_pure fun _ =>
          some NamedObjectKind.ForeignDataWrapper)))⟩
      | false =>
        obtain ⟨⟨⟨⟩, last⟩, hlast, heq⟩ := bind_eq_ok.mp h
        cases heq
        obtain ⟨_, hfour⟩ := rewrites_expect separators (spelled_written (by decide)) hlast
        exact ⟨_, hone.bind (htwo.bind (hthree.bind (hfour.bind_pure fun _ =>
          some NamedObjectKind.ForeignServer)))⟩

/-! ## Targets -/

/-- The argument types of an object are taken again where they are written. -/
def GrantObject.ReadBack (parse_data_type : ParseResult T) (write_data_type : T → List Token) :
    GrantObject T → Prop
  | .Routines _ routines =>
    ∀ routine ∈ routines, routine.ReadBack parse_data_type write_data_type
  | _ => True

theorem routine_table : ∀ entry ∈ routine_object_kinds, entry.1 = entry.2.word ∧
    entry.1 ∉ separators ∧ spelled (written entry.1) = some entry.1.toList := by
  intro entry hentry
  have hwords : ∀ entry ∈ routine_object_kinds, entry.1 = entry.2.word ∧ entry.1 ∉ separators := by
    simp [routine_object_kinds, RoutineObjectKind.word, separators]
  exact ⟨(hwords entry hentry).1, (hwords entry hentry).2,
    spelled_written_lower (tables_lower.2.2.1 entry hentry)⟩

theorem schema_table : ∀ entry ∈ schema_object_kinds, entry.1 = entry.2.word ∧
    spelled (written entry.1) = some entry.1.toList ∧
    table_value schema_object_kinds (written entry.1) = some entry.2 := by
  intro entry hentry
  have hwords : ∀ entry ∈ schema_object_kinds, entry.1 = entry.2.word := by
    simp [schema_object_kinds, SchemaObjectKind.word]
  exact ⟨hwords entry hentry, table_value_written tables_lower.2.2.2.1
    (by simp [schema_object_kinds]) entry hentry⟩

theorem rewrites_schema_object_kind {kind : SchemaObjectKind}
    (h : parse_schema_object_kind ts = .ok (kind, rest)) :
    ∃ used, Rewrites Same parse_schema_object_kind parse_schema_object_kind ts kind kind rest used
      [written kind.word] := by
  have hmeans : ∀ t kind, table_value schema_object_kinds t = some kind →
      table_value schema_object_kinds (written kind.word) = some (id kind) ∧
      (t = written kind.word ∨
        (spelled t).isSome = true ∧ spelled t = spelled (written kind.word)) := by
    intro t kind ht
    obtain ⟨word, hentry, hspelled⟩ := table_value_eq_some ht
    obtain ⟨hword, hwritten, hvalue⟩ := schema_table _ hentry
    dsimp only at hword hwritten hvalue
    subst hword
    exact ⟨hvalue, .inr ⟨by rw [hspelled]; rfl, hspelled.trans hwritten.symm⟩⟩
  exact rewrites_token_as separators hmeans rfl h

theorem rewrites_grant_target (hfixed : Fixed (parse_arg_types parse_data_type))
    {object : GrantObject T}
    (h : parse_grant_target features syntaxes parse_data_type ts = .ok (object, rest)) :
    ∃ used new, Rewrites Same (parse_grant_target features syntaxes parse_data_type)
      (parse_grant_target features syntaxes parse_data_type) ts object object rest used new ∧
      (object.ReadBack parse_data_type write_data_type →
        new = object.tokens write_data_type) := by
  obtain ⟨⟨all, mid⟩, hall, h⟩ := bind_eq_ok.mp h
  obtain ⟨_, hone⟩ := rewrites_eat separators (by decide) (spelled_written (by decide)) hall
  cases all with
  | true =>
    obtain ⟨⟨kind, mid'⟩, hkind, h⟩ := bind_eq_ok.mp h
    obtain ⟨⟨⟨⟩, mid''⟩, hin, h⟩ := bind_eq_ok.mp h
    obtain ⟨⟨⟨⟩, behind⟩, hschema, h⟩ := bind_eq_ok.mp h
    obtain ⟨⟨schemas, last⟩, hnames, heq⟩ := bind_eq_ok.mp h
    cases heq
    obtain ⟨_, htwo⟩ := rewrites_schema_object_kind hkind
    obtain ⟨_, hthree⟩ := rewrites_expect separators (spelled_written (by decide)) hin
    obtain ⟨_, hfour⟩ := rewrites_expect separators (spelled_written (by decide)) hschema
    obtain ⟨_, hfive⟩ := rewrites_object_names hnames
    refine ⟨_, _, hone.bind (htwo.bind (hthree.bind (hfour.bind
      (hfive.bind_pure (GrantObject.AllInSchema kind))))), fun _ => rfl⟩
  | false =>
    obtain ⟨⟨table, mid'⟩, htable, h⟩ := bind_eq_ok.mp h
    obtain ⟨_, htwo⟩ := rewrites_eat separators (by decide) (spelled_written (by decide)) htable
    cases table with
    | true =>
      obtain ⟨⟨names, last⟩, hnames, heq⟩ := bind_eq_ok.mp h
      cases heq
      obtain ⟨_, hthree⟩ := rewrites_object_names hnames
      exact ⟨_, _, hone.bind (htwo.bind (hthree.bind_pure (GrantObject.Table true))), fun _ => rfl⟩
    | false =>
      obtain ⟨⟨named, mid''⟩, hnamed, h⟩ := bind_eq_ok.mp h
      obtain ⟨_, hthree⟩ := rewrites_named_object_kind hnamed
      cases named with
      | some kind =>
        obtain ⟨⟨names, last⟩, hnames, heq⟩ := bind_eq_ok.mp h
        cases heq
        obtain ⟨_, hfour⟩ := rewrites_object_names hnames
        refine ⟨_, _, hone.bind (htwo.bind (hthree.bind
          (hfour.bind_pure (GrantObject.Named kind)))), fun _ => ?_⟩
        simp [GrantObject.tokens]
      | none =>
        obtain ⟨⟨routine, behind⟩, hroutine, h⟩ := bind_eq_ok.mp h
        obtain ⟨_, hfour⟩ :=
          rewrites_optional separators RoutineObjectKind.word routine_table hroutine
        cases routine with
        | some kind =>
          obtain ⟨⟨routines, last⟩, hroutines, heq⟩ := bind_eq_ok.mp h
          cases heq
          obtain ⟨_, _, hfive, hnew⟩ := rewrites_routines hfixed hroutines
          refine ⟨_, _, hone.bind (htwo.bind (hthree.bind (hfour.bind
            (hfive.bind_pure (GrantObject.Routines kind))))), fun hgood => ?_⟩
          rw [hnew hgood]
          rfl
        | none =>
          obtain ⟨⟨names, last⟩, hnames, heq⟩ := bind_eq_ok.mp h
          cases heq
          obtain ⟨_, hfive⟩ := rewrites_object_names hnames
          exact ⟨_, _, hone.bind (htwo.bind (hthree.bind (hfour.bind
            (hfive.bind_pure (GrantObject.Table false))))), fun _ => rfl⟩

theorem rewrites_grant_object (write_data_type : T → List Token)
    (hfixed : Fixed (parse_arg_types parse_data_type))
    {object : GrantObject T}
    (h : parse_grant_object features syntaxes parse_data_type ts = .ok (object, rest)) :
    ∃ used new, Rewrites Same (parse_grant_object features syntaxes parse_data_type)
      (parse_grant_object features syntaxes parse_data_type) ts object object rest used new ∧
      (object.ReadBack parse_data_type write_data_type →
        new = [written "on"] ++ object.tokens write_data_type) := by
  obtain ⟨⟨⟨⟩, mid⟩, hon, h⟩ := bind_eq_ok.mp h
  obtain ⟨_, hone⟩ := rewrites_expect separators (spelled_written (by decide)) hon
  dsimp only at h
  rw [bind_apply, look_apply, bind_ok] at h
  have hrespects : Respects Same fun t =>
      extended_objects.any fun word => token_is_contextual_keyword word t :=
    respects_words (by decide)
  cases hturned : !syntaxes.access_control_extended_objects && mid.head?.any fun t =>
      extended_objects.any fun word => token_is_contextual_keyword word t with
  | true =>
    rw [hturned] at h
    cases h
  | false =>
    rw [hturned, if_neg Bool.false_ne_true] at h
    obtain ⟨used, new, htarget, hnew⟩ := rewrites_grant_target hfixed h
    refine ⟨_ ++ used, _ ++ new, hone.bind (.look hrespects ?_), ?_⟩
    · rw [hturned, if_neg Bool.false_ne_true]
      exact htarget
    · intro hgood
      rw [hnew hgood]

end

/-! ## Grantees and options -/

theorem role_spec_token : ∀ entry ∈ role_specs, entry.2.token = written entry.1 ∧
    spelled (written entry.1) = some entry.1.toList ∧
    table_value role_specs (written entry.1) = some entry.2 := by
  intro entry hentry
  have hwords : ∀ entry ∈ role_specs, entry.2.token = written entry.1 := by
    simp [role_specs, RoleSpec.token]
  exact ⟨hwords entry hentry, table_value_written tables_lower.2.2.2.2.1
    (by simp [role_specs]) entry hentry⟩

theorem rewrites_role_spec {spec : RoleSpec} (h : parse_role_spec features ts = .ok (spec, rest)) :
    ∃ used, Rewrites Same (parse_role_spec features) (parse_role_spec features) ts spec spec rest
      used [spec.token] := by
  have hmeans : ∀ t spec, role_spec features t = some spec →
      role_spec features spec.token = some (id spec) ∧
      (t = spec.token ∨ (spelled t).isSome = true ∧ spelled t = spelled spec.token) := by
    intro t spec ht
    obtain hword | ⟨hnone, hname⟩ := Option.or_eq_some_iff.mp ht
    · obtain ⟨word, hentry, hspelled⟩ := table_value_eq_some hword
      obtain ⟨htoken, hwritten, hvalue⟩ := role_spec_token _ hentry
      dsimp only at htoken hwritten hvalue
      rw [htoken]
      refine ⟨?_, .inr ⟨by rw [hspelled]; rfl, hspelled.trans hwritten.symm⟩⟩
      rw [role_spec, hvalue]
      rfl
    · obtain ⟨name, hcolumn, rfl⟩ := Option.map_eq_some_iff.mp hname
      have htoken : t = (RoleSpec.Name name).token := expr.column_name_token hcolumn
      exact ⟨htoken ▸ ht, .inl htoken⟩
  exact rewrites_token_as separators hmeans rfl h

theorem rewrites_grantee {grantee : Grantee}
    (h : parse_grantee features ts = .ok (grantee, rest)) :
    ∃ used, Rewrites Same (parse_grantee features) (parse_grantee features) ts grantee grantee rest
      used grantee.tokens := by
  obtain ⟨⟨group, mid⟩, hgroup, h⟩ := bind_eq_ok.mp h
  obtain ⟨⟨spec, behind⟩, hspec, heq⟩ := bind_eq_ok.mp h
  cases heq
  obtain ⟨_, hone⟩ := rewrites_eat separators (by decide) (spelled_written (by decide)) hgroup
  obtain ⟨_, htwo⟩ := rewrites_role_spec hspec
  exact ⟨_, hone.bind (htwo.bind_pure (Grantee.mk group))⟩

theorem rewrites_grantees {grantees : List Grantee}
    (h : parse_grantee_list features ts = .ok (grantees, rest)) :
    ∃ used, Rewrites Same (parse_grantee_list features) (parse_grantee_list features) ts grantees
      grantees rest used (comma_list Grantee.tokens grantees) :=
  rewrites_comma_list separators (fun _ _ _ => rewrites_grantee) h

theorem rewrites_granted_by {granted_by : Option RoleSpec}
    (h : parse_granted_by features ts = .ok (granted_by, rest)) :
    ∃ used, Rewrites Same (parse_granted_by features) (parse_granted_by features) ts granted_by
      granted_by rest used (granted_by_tokens granted_by) := by
  obtain ⟨⟨granted, mid⟩, hgranted, h⟩ := bind_eq_ok.mp h
  obtain ⟨_, hone⟩ := rewrites_eat separators (by decide) (spelled_written (by decide)) hgranted
  cases granted with
  | false =>
    cases h
    exact ⟨_, hone.bind (.pure none none)⟩
  | true =>
    obtain ⟨⟨⟨⟩, mid'⟩, hby, h⟩ := bind_eq_ok.mp h
    obtain ⟨⟨spec, behind⟩, hspec, heq⟩ := bind_eq_ok.mp h
    cases heq
    obtain ⟨_, htwo⟩ := rewrites_expect separators (spelled_written (by decide)) hby
    obtain ⟨_, hthree⟩ := rewrites_role_spec hspec
    exact ⟨_, hone.bind (htwo.bind (hthree.bind_pure some))⟩

theorem rewrites_with_option {middle : String} (hmiddle : middle ∈ words) {with_option : Bool}
    (h : parse_with_option middle ts = .ok (with_option, rest)) :
    ∃ used, Rewrites Same (parse_with_option middle) (parse_with_option middle) ts with_option
      with_option rest used (with_option_tokens middle with_option) := by
  obtain ⟨⟨taken, mid⟩, htaken, h⟩ := bind_eq_ok.mp h
  obtain ⟨_, hone⟩ := rewrites_eat separators (by decide) (spelled_written (by decide)) htaken
  cases taken with
  | false =>
    cases h
    exact ⟨_, hone.bind (.pure false false)⟩
  | true =>
    obtain ⟨⟨⟨⟩, mid'⟩, hword, h⟩ := bind_eq_ok.mp h
    obtain ⟨⟨⟨⟩, behind⟩, hoption, heq⟩ := bind_eq_ok.mp h
    cases heq
    obtain ⟨_, htwo⟩ := rewrites_expect separators (spelled_written hmiddle) hword
    obtain ⟨_, hthree⟩ := rewrites_expect separators (spelled_written (by decide)) hoption
    exact ⟨_, hone.bind (htwo.bind (hthree.bind_pure fun _ => true))⟩

theorem behavior_table : ∀ entry ∈ revoke_behaviors, entry.1 = entry.2.word ∧
    entry.1 ∉ separators ∧ spelled (written entry.1) = some entry.1.toList := by
  intro entry hentry
  have hwords : ∀ entry ∈ revoke_behaviors, entry.1 = entry.2.word ∧ entry.1 ∉ separators := by
    simp [revoke_behaviors, DropBehavior.word, separators]
  exact ⟨(hwords entry hentry).1, (hwords entry hentry).2,
    spelled_written_lower (tables_lower.2.2.2.2.2 entry hentry)⟩

theorem rewrites_behavior {behavior : Option DropBehavior}
    (h : parse_revoke_behavior ts = .ok (behavior, rest)) :
    ∃ used, Rewrites Same parse_revoke_behavior parse_revoke_behavior ts behavior behavior rest used
      (behavior_tokens behavior) :=
  rewrites_optional separators DropBehavior.word behavior_table h

end squonk.parser.clause.access_control
