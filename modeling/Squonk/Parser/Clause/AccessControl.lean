import Squonk.Parser.Clause.ObjectName

/-!
# `GRANT` and `REVOKE`

The standard access-control statements: privileges on an object, and membership in roles. The list
behind the first word is read before it is known which of the two it is. The account grants that
MySQL has instead are read elsewhere.
-/

open squonk.ast squonk.tokenizer squonk.dialect listing listing.Reader

namespace squonk.parser.clause.access_control

/-- The gates of the statements and of the names in them, and the words that are no part of a dotted
name. -/
structure AccessControlSyntax where
  access_control_extended_objects : Bool
  routine_arg_types : Bool
  catalog_qualified_names : Bool
  string_literal_identifiers : Bool
  reserved_as_label : List String
  deriving DecidableEq

def AccessControlSyntax.ANSI : AccessControlSyntax where
  access_control_extended_objects := true
  routine_arg_types := true
  catalog_qualified_names := true
  string_literal_identifiers := false
  reserved_as_label := []

/-! ## Privileges -/

inductive PrivilegeKind
  | Select | Insert | Update | Delete | Truncate | References | Trigger | Usage | Execute | Create
  | Connect | Temporary | Temp | Maintain
  deriving DecidableEq

def PrivilegeKind.word : PrivilegeKind → String
  | .Select => "select" | .Insert => "insert" | .Update => "update" | .Delete => "delete"
  | .Truncate => "truncate" | .References => "references" | .Trigger => "trigger"
  | .Usage => "usage" | .Execute => "execute" | .Create => "create" | .Connect => "connect"
  | .Temporary => "temporary" | .Temp => "temp" | .Maintain => "maintain"

/-- The built-in privileges, by their spelling. -/
def KNOWN : List (String × PrivilegeKind) :=
  [("select", .Select), ("insert", .Insert), ("update", .Update), ("delete", .Delete),
   ("truncate", .Truncate), ("references", .References), ("trigger", .Trigger), ("usage", .Usage),
   ("execute", .Execute), ("create", .Create), ("connect", .Connect), ("temporary", .Temporary),
   ("temp", .Temp), ("maintain", .Maintain)]

/-- A privilege or a role, before it is known which. -/
structure GrantElement where
  word : Ident
  kind : Option PrivilegeKind
  columns : List Ident
  deriving DecidableEq

inductive Privilege
  | Known (kind : PrivilegeKind) (columns : List Ident)
  | Other (name : Ident) (columns : List Ident)
  deriving DecidableEq

inductive Privileges
  | All (privileges_keyword : Bool)
  | List (privileges : List Privilege)
  deriving DecidableEq

/-! ## Objects -/

inductive NamedObjectKind
  | Sequence | Database | Schema | Domain | Type | Language | Tablespace | ForeignDataWrapper
  | ForeignServer
  deriving DecidableEq

inductive RoutineObjectKind | Function | Procedure | Routine
  deriving DecidableEq

inductive SchemaObjectKind | Tables | Sequences | Functions | Procedures | Routines
  deriving DecidableEq

/-- The kinds that one word names. -/
def named_object_kinds : List (String × NamedObjectKind) :=
  [("sequence", .Sequence), ("database", .Database), ("schema", .Schema), ("domain", .Domain),
   ("type", .Type), ("language", .Language), ("tablespace", .Tablespace)]

def routine_object_kinds : List (String × RoutineObjectKind) :=
  [("function", .Function), ("procedure", .Procedure), ("routine", .Routine)]

def schema_object_kinds : List (String × SchemaObjectKind) :=
  [("tables", .Tables), ("sequences", .Sequences), ("functions", .Functions),
   ("procedures", .Procedures), ("routines", .Routines)]

/-- A routine by its name, with the types of its arguments where they are written. -/
structure RoutineSignature (T : Type) where
  name : ObjectName
  arg_types : Option (List T)
  deriving DecidableEq

inductive GrantObject (T : Type)
  | Table (explicit : Bool) (names : List ObjectName)
  | Named (kind : NamedObjectKind) (names : List ObjectName)
  | Routines (kind : RoutineObjectKind) (routines : List (RoutineSignature T))
  | AllInSchema (kind : SchemaObjectKind) (schemas : List ObjectName)
  deriving DecidableEq

/-! ## Grantees -/

inductive RoleSpec
  | Public | CurrentRole | CurrentUser | SessionUser
  | Name (name : Ident)
  deriving DecidableEq

def role_specs : List (String × RoleSpec) :=
  [("public", .Public), ("current_role", .CurrentRole), ("current_user", .CurrentUser),
   ("session_user", .SessionUser)]

structure Grantee where
  group : Bool
  spec : RoleSpec
  deriving DecidableEq

inductive DropBehavior | Cascade | Restrict
  deriving DecidableEq

def revoke_behaviors : List (String × DropBehavior) :=
  [("cascade", .Cascade), ("restrict", .Restrict)]

inductive AccessControlStatement (T : Type)
  | Grant (privileges : Privileges) (object : GrantObject T) (grantees : List Grantee)
      (with_grant_option : Bool) (granted_by : Option RoleSpec)
  | Revoke (grant_option_for : Bool) (privileges : Privileges) (object : GrantObject T)
      (grantees : List Grantee) (granted_by : Option RoleSpec) (behavior : Option DropBehavior)
  | GrantRole (roles : List Ident) (grantees : List Grantee) (with_admin_option : Bool)
      (granted_by : Option RoleSpec)
  | RevokeRole (admin_option_for : Bool) (roles : List Ident) (grantees : List Grantee)
      (granted_by : Option RoleSpec) (behavior : Option DropBehavior)
  deriving DecidableEq

variable {T : Type}

/-! ## Reading -/

section
variable (features : FeatureSet)

/-- A built-in privilege, reserved or not, or a name. -/
def privilege_or_role_word (t : Token) : Option (Ident × Option PrivilegeKind) :=
  match table_value KNOWN t with
  | some kind => (label t).map fun word => (word, some kind)
  | none => (expr.column_name features t).map fun word => (word, none)

def parse_privilege_or_role_word : ParseResult (Ident × Option PrivilegeKind) :=
  token (privilege_or_role_word features) "an identifier"

def parse_optional_column_list : ParseResult (List Ident) := do
  if ← eat_punct .LParen then
    let columns ← parse_comma_separated (parse_ident features)
    expect_punct .RParen "`)` to close the privilege column list"
    return columns
  else
    return []

def parse_grant_element : ParseResult GrantElement := do
  let (word, kind) ← parse_privilege_or_role_word features
  let columns ← parse_optional_column_list features
  return ⟨word, kind, columns⟩

def parse_grant_element_list : ParseResult (List GrantElement) :=
  parse_comma_separated (parse_grant_element features)

def role_spec (t : Token) : Option RoleSpec :=
  (table_value role_specs t).or ((expr.column_name features t).map RoleSpec.Name)

def parse_role_spec : ParseResult RoleSpec := token (role_spec features) "an identifier"

def parse_grantee : ParseResult Grantee := do
  let group ← eat_contextual_keyword "group"
  let spec ← parse_role_spec features
  return ⟨group, spec⟩

def parse_grantee_list : ParseResult (List Grantee) :=
  parse_comma_separated (parse_grantee features)

def parse_granted_by : ParseResult (Option RoleSpec) := do
  if ← eat_contextual_keyword "granted" then
    expect_contextual_keyword "by"
    return some (← parse_role_spec features)
  else
    return none

end

def GrantElement.as_privilege (element : GrantElement) : Privilege :=
  match element.kind with
  | some kind => .Known kind element.columns
  | none => .Other element.word element.columns

def privileges_from_elements (elements : List GrantElement) : Privileges :=
  .List (elements.map GrantElement.as_privilege)

/-- A role has no columns. -/
def roles_from_elements (elements : List GrantElement) : ParseResult (List Ident) :=
  if elements.any fun element => !element.columns.isEmpty then
    fail "a role name without a column list"
  else
    return elements.map GrantElement.word

def parse_with_option (middle : String) : ParseResult Bool := do
  if ← eat_contextual_keyword "with" then
    expect_contextual_keyword middle
    expect_contextual_keyword "option"
    return true
  else
    return false

/-- The words of the prefix are taken only together. -/
def parse_option_for (word : String) : ParseResult Bool := do
  if ← look fun ts =>
      peek_is_contextual_keyword word ts && peek_nth_is_contextual_keyword 1 "option" ts then
    expect_contextual_keyword word
    expect_contextual_keyword "option"
    expect_contextual_keyword "for"
    return true
  else
    return false

def parse_revoke_behavior : ParseResult (Option DropBehavior) :=
  optional_token (table_value revoke_behaviors)

def parse_all_privileges : ParseResult Privileges := do
  expect_contextual_keyword "all"
  let privileges_keyword ← eat_contextual_keyword "privileges"
  return .All privileges_keyword

section
variable (features : FeatureSet) (syntaxes : AccessControlSyntax)

def is_string : Token → Bool
  | .string _ => true
  | _ => false

/-- A string stands for a part of a name where the dialect has such names. -/
def parse_relation_target_name : ParseResult ObjectName :=
  if syntaxes.string_literal_identifiers then
    parse_dotted (fun t => (string_alias t).or (column_part features t))
      (fun t => (string_alias t).or (label_part syntaxes.reserved_as_label t))
      (fun t => expr.token_can_be_label t || is_string t) "an identifier"
  else
    parse_object_name features syntaxes.reserved_as_label

def parse_target_relation_name : ParseResult ObjectName := do
  let name ← parse_relation_target_name features syntaxes
  if !syntaxes.catalog_qualified_names && name.length > 2 then
    fail "a relation name of at most two parts (schema.table)"
  else
    return name

def parse_object_name_list : ParseResult (List ObjectName) :=
  parse_comma_separated (parse_object_name features syntaxes.reserved_as_label)

variable (parse_data_type : ParseResult T)

/-- The types of a routine's arguments, with the parenthesis behind them. -/
def parse_arg_types : ParseResult (List T) := do
  let types ← (do
    if ← look fun ts => ts.head? == some .rparen then
      return []
    else
      parse_comma_separated parse_data_type)
  expect_punct .RParen "`)` to close the routine argument list"
  return types

def parse_optional_arg_types : ParseResult (Option (List T)) := do
  if ← (if syntaxes.routine_arg_types then eat_punct .LParen else return false) then
    return some (← parse_arg_types parse_data_type)
  else
    return none

def parse_routine_signature : ParseResult (RoutineSignature T) := do
  let name ← parse_target_relation_name features syntaxes
  let arg_types ← parse_optional_arg_types syntaxes parse_data_type
  return ⟨name, arg_types⟩

def parse_routine_signature_list : ParseResult (List (RoutineSignature T)) :=
  parse_comma_separated (parse_routine_signature features syntaxes parse_data_type)

def parse_schema_object_kind : ParseResult SchemaObjectKind :=
  token (table_value schema_object_kinds)
    "`TABLES`, `SEQUENCES`, `FUNCTIONS`, `PROCEDURES`, or `ROUTINES`"

def try_parse_named_object_kind : ParseResult (Option NamedObjectKind) := do
  match ← optional_token (table_value named_object_kinds) with
  | some kind => return some kind
  | none =>
    if ← eat_contextual_keyword "foreign" then
      if ← eat_contextual_keyword "data" then
        expect_contextual_keyword "wrapper"
        return some .ForeignDataWrapper
      else
        expect_contextual_keyword "server"
        return some .ForeignServer
    else
      return none

def try_parse_routine_object_kind : ParseResult (Option RoutineObjectKind) :=
  optional_token (table_value routine_object_kinds)

/-- The words of the objects that a dialect without the extended ones turns down. -/
def extended_objects : List String := ["all", "schema", "database"]

def parse_grant_target : ParseResult (GrantObject T) := do
  if ← eat_contextual_keyword "all" then
    let kind ← parse_schema_object_kind
    expect_contextual_keyword "in"
    expect_contextual_keyword "schema"
    return .AllInSchema kind (← parse_object_name_list features syntaxes)
  else if ← eat_contextual_keyword "table" then
    return .Table true (← parse_object_name_list features syntaxes)
  else
    match ← try_parse_named_object_kind with
    | some kind => return .Named kind (← parse_object_name_list features syntaxes)
    | none =>
      match ← try_parse_routine_object_kind with
      | some kind =>
        return .Routines kind
          (← parse_routine_signature_list features syntaxes parse_data_type)
      | none => return .Table false (← parse_object_name_list features syntaxes)

def parse_grant_object : ParseResult (GrantObject T) := do
  expect_contextual_keyword "on"
  if !syntaxes.access_control_extended_objects && (← look fun ts => ts.head?.any fun t =>
      extended_objects.any fun word => token_is_contextual_keyword word t) then
    fail ("a table, function, or procedure grant object: this dialect has no schema-scoped " ++
      "(`ON SCHEMA`/`ON DATABASE`) or `ALL … IN SCHEMA` grant object")
  else
    parse_grant_target features syntaxes parse_data_type

def finish_privilege_grant (privileges : Privileges) : ParseResult (AccessControlStatement T) := do
  let object ← parse_grant_object features syntaxes parse_data_type
  expect_contextual_keyword "to"
  let grantees ← parse_grantee_list features
  let with_grant_option ← parse_with_option "grant"
  let granted_by ← parse_granted_by features
  return .Grant privileges object grantees with_grant_option granted_by

def finish_role_grant (elements : List GrantElement) : ParseResult (AccessControlStatement T) := do
  let roles ← roles_from_elements elements
  let grantees ← parse_grantee_list features
  let with_admin_option ← parse_with_option "admin"
  let granted_by ← parse_granted_by features
  return .GrantRole roles grantees with_admin_option granted_by

/-- A statement behind its `GRANT`. -/
def parse_grant_kind : ParseResult (AccessControlStatement T) := do
  if ← look fun ts => ts.head?.any (token_is_contextual_keyword "all") then
    finish_privilege_grant features syntaxes parse_data_type (← parse_all_privileges)
  else
    let elements ← parse_grant_element_list features
    if ← look fun ts => ts.head?.any (token_is_contextual_keyword "on") then
      finish_privilege_grant features syntaxes parse_data_type (privileges_from_elements elements)
    else if ← eat_contextual_keyword "to" then
      finish_role_grant features elements
    else
      fail "`ON` or `TO`"

def finish_privilege_revoke (grant_option_for : Bool) (privileges : Privileges) :
    ParseResult (AccessControlStatement T) := do
  let object ← parse_grant_object features syntaxes parse_data_type
  expect_contextual_keyword "from"
  let grantees ← parse_grantee_list features
  let granted_by ← parse_granted_by features
  let behavior ← parse_revoke_behavior
  return .Revoke grant_option_for privileges object grantees granted_by behavior

def finish_role_revoke (admin_option_for : Bool) (elements : List GrantElement) :
    ParseResult (AccessControlStatement T) := do
  let roles ← roles_from_elements elements
  let grantees ← parse_grantee_list features
  let granted_by ← parse_granted_by features
  let behavior ← parse_revoke_behavior
  return .RevokeRole admin_option_for roles grantees granted_by behavior

/-- What is revoked, behind the prefixes. -/
def parse_revoked (grant_option_for admin_option_for : Bool) :
    ParseResult (AccessControlStatement T) := do
  let elements ← parse_grant_element_list features
  if !admin_option_for && (← look fun ts =>
      ts.head?.any (token_is_contextual_keyword "on")) then
    finish_privilege_revoke features syntaxes parse_data_type grant_option_for
      (privileges_from_elements elements)
  else if grant_option_for then
    fail "`ON`"
  else if ← eat_contextual_keyword "from" then
    finish_role_revoke features admin_option_for elements
  else
    fail (if admin_option_for then "`FROM`" else "`ON` or `FROM`")

/-- A statement behind its `REVOKE`. -/
def parse_revoke_kind : ParseResult (AccessControlStatement T) := do
  let grant_option_for ← parse_option_for "grant"
  let admin_option_for ← (if grant_option_for then return false else parse_option_for "admin")
  if !syntaxes.access_control_extended_objects && (grant_option_for || admin_option_for) then
    fail ("a REVOKE with no `GRANT OPTION FOR` / `ADMIN OPTION FOR` prefix: this dialect has no " ++
      "such prefix")
  else
    parse_revoked features syntaxes parse_data_type grant_option_for admin_option_for

def parse_access_control_statement : ParseResult (AccessControlStatement T) := do
  if ← eat_contextual_keyword "grant" then
    parse_grant_kind features syntaxes parse_data_type
  else if ← eat_contextual_keyword "revoke" then
    parse_revoke_kind features syntaxes parse_data_type
  else
    fail "`GRANT` or `REVOKE`"

end

/-! ## Writing -/

section
variable (write_data_type : T → List Token)

def privilege_columns : List Ident → List Token
  | [] => []
  | columns =>
    [.lparen] ++ comma_list (fun column => [expr.ident_token column]) columns ++ [.rparen]

def Privilege.tokens : Privilege → List Token
  | .Known kind columns => [written kind.word] ++ privilege_columns columns
  | .Other name columns => [expr.ident_token name] ++ privilege_columns columns

/-- `PRIVILEGES` is written whether or not it was. -/
def privileges_tokens : Privileges → List Token
  | .All _ => [written "all", written "privileges"]
  | .List privileges => comma_list Privilege.tokens privileges

def NamedObjectKind.words : NamedObjectKind → List String
  | .Sequence => ["sequence"] | .Database => ["database"] | .Schema => ["schema"]
  | .Domain => ["domain"] | .Type => ["type"] | .Language => ["language"]
  | .Tablespace => ["tablespace"] | .ForeignDataWrapper => ["foreign", "data", "wrapper"]
  | .ForeignServer => ["foreign", "server"]

def RoutineObjectKind.word : RoutineObjectKind → String
  | .Function => "function" | .Procedure => "procedure" | .Routine => "routine"

def SchemaObjectKind.word : SchemaObjectKind → String
  | .Tables => "tables" | .Sequences => "sequences" | .Functions => "functions"
  | .Procedures => "procedures" | .Routines => "routines"

def arg_types_tokens (types : List T) : List Token := comma_list write_data_type types ++ [.rparen]

def RoutineSignature.tokens (self : RoutineSignature T) : List Token :=
  object_name_tokens self.name ++
    self.arg_types.toList.flatMap fun types => [.lparen] ++ arg_types_tokens write_data_type types

def GrantObject.tokens : GrantObject T → List Token
  | .Table explicit names =>
    (if explicit then [written "table"] else []) ++ comma_list object_name_tokens names
  | .Named kind names => kind.words.map written ++ comma_list object_name_tokens names
  | .Routines kind routines =>
    [written kind.word] ++ comma_list (RoutineSignature.tokens write_data_type) routines
  | .AllInSchema kind schemas =>
    [written "all", written kind.word, written "in", written "schema"] ++
      comma_list object_name_tokens schemas

def RoleSpec.token : RoleSpec → Token
  | .Public => written "public"
  | .CurrentRole => written "current_role"
  | .CurrentUser => written "current_user"
  | .SessionUser => written "session_user"
  | .Name name => expr.ident_token name

def Grantee.tokens (self : Grantee) : List Token :=
  (if self.group then [written "group"] else []) ++ [self.spec.token]

def granted_by_tokens : Option RoleSpec → List Token
  | none => []
  | some grantor => [written "granted", written "by", grantor.token]

def with_option_tokens (middle : String) (with_option : Bool) : List Token :=
  if with_option then [written "with", written middle, written "option"] else []

def option_for_tokens (word : String) (option_for : Bool) : List Token :=
  if option_for then [written word, written "option", written "for"] else []

def DropBehavior.word : DropBehavior → String
  | .Cascade => "cascade" | .Restrict => "restrict"

def behavior_tokens (behavior : Option DropBehavior) : List Token :=
  behavior.toList.map fun behavior => written behavior.word

def AccessControlStatement.tokens : AccessControlStatement T → List Token
  | .Grant privileges object grantees with_grant_option granted_by =>
    [written "grant"] ++ privileges_tokens privileges ++ [written "on"] ++
      object.tokens write_data_type ++ [written "to"] ++ comma_list Grantee.tokens grantees ++
      with_option_tokens "grant" with_grant_option ++ granted_by_tokens granted_by
  | .Revoke grant_option_for privileges object grantees granted_by behavior =>
    [written "revoke"] ++ option_for_tokens "grant" grant_option_for ++
      privileges_tokens privileges ++ [written "on"] ++ object.tokens write_data_type ++ [written "from"] ++
      comma_list Grantee.tokens grantees ++ granted_by_tokens granted_by ++
      behavior_tokens behavior
  | .GrantRole roles grantees with_admin_option granted_by =>
    [written "grant"] ++ comma_list (fun role => [expr.ident_token role]) roles ++ [written "to"] ++
      comma_list Grantee.tokens grantees ++ with_option_tokens "admin" with_admin_option ++
      granted_by_tokens granted_by
  | .RevokeRole admin_option_for roles grantees granted_by behavior =>
    [written "revoke"] ++ option_for_tokens "admin" admin_option_for ++
      comma_list (fun role => [expr.ident_token role]) roles ++ [written "from"] ++
      comma_list Grantee.tokens grantees ++ granted_by_tokens granted_by ++
      behavior_tokens behavior

end

end squonk.parser.clause.access_control
