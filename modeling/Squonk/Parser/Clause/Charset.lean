import Squonk.Dialect.Presets
import Squonk.Listing.Respell
import Squonk.Parser.Clause.Words

/-!
# Character-set clauses

The places where MySQL takes a character set: behind `SET`, in a type, in `LOAD DATA`, among the
options of a database and among the options of a table. `CHARSET` and `CHARACTER SET` are one
clause in all of them but the last: a table option is any name with a value behind it, and
`CHARACTER SET` is the option `CHARACTER` with the value `SET`.
-/

open squonk.ast squonk.tokenizer squonk.dialect listing listing.Reader

namespace squonk.parser.clause.character_set

/-- `CHARACTER` with `SET` behind it. -/
def peek_is_character_set (ts : List Token) : Bool :=
  peek_is_contextual_keyword "character" ts && peek_nth_is_contextual_keyword 1 "set" ts

/-! ## Names -/

def parse_as_alias_ident : ParseResult Ident := token label "an alias"

section
variable (features : FeatureSet)

def ident_or_text (token : Token) : Option Name :=
  (string_alias token).or ((expr.column_name features token).map Name.ident)

def parse_ident : ParseResult Ident := token (expr.column_name features) "an identifier"

def parse_ident_or_text : ParseResult Name := token (ident_or_text features) "an identifier"

def parse_charset_name : ParseResult Name := parse_ident_or_text features

/-- `BINARY` is a name here, reserved as it is. -/
def parse_alter_database_charset_name : ParseResult Name :=
  token (fun t =>
    if token_is_contextual_keyword "binary" t then (label t).map Name.ident
    else ident_or_text features t) "an identifier"

/-! ## `SET` -/

inductive CharacterSetKeyword | Charset | CharacterSet
  deriving DecidableEq

inductive SetParameterValue
  | Literal (literal : Literal)
  | Parameter (text : List Char)
  | Name (name : Ident)
  deriving DecidableEq

def string_literal_is_sconst : List Char → Bool
  | 'B' :: '\'' :: _ | 'b' :: '\'' :: _ | 'X' :: '\'' :: _ | 'x' :: '\'' :: _
  | 'N' :: '\'' :: _ | 'n' :: '\'' :: _ | '_' :: _ => false
  | _ => true

def parse_set_parameter_value : ParseResult SetParameterValue := do
  match ← look List.head? with
  | some (.operator .Minus) =>
    advance
    token (fun t => match t with
      | .number text => some (.Literal (.Number ('-' :: text)))
      | _ => none) "a number after a sign in a SET value"
  | some (.operator .Plus) =>
    advance
    token (fun t => match t with
      | .number text => some (.Literal (.Number ('+' :: text)))
      | _ => none) "a number after a sign in a SET value"
  | some (.number text) =>
    advance
    return .Literal (.Number text)
  | some (.string raw) =>
    if string_literal_is_sconst raw then
      advance
      return .Literal (.String raw)
    else
      fail "a string constant, number, or name in a SET value"
  | some (.parameter text) =>
    advance
    return .Parameter text
  | _ => return .Name (← token label "a SET value")

inductive SetCharacterSetValue
  | Default
  | Charset (charset : SetParameterValue)
  deriving DecidableEq

structure SetCharacterSet where
  keyword : CharacterSetKeyword
  value : SetCharacterSetValue
  deriving DecidableEq

def parse_set_character_set (keyword : CharacterSetKeyword) : ParseResult SetCharacterSet := do
  if ← eat_contextual_keyword "default" then
    return ⟨keyword, .Default⟩
  else
    return ⟨keyword, .Charset (← parse_set_parameter_value)⟩

/-- The forms of `SET` that take no character set. -/
inductive SetForm | constraints | names | session_characteristics | resource_group | role | variables
  deriving DecidableEq

inductive SetStatement (S : Type)
  | set_character_set (set : SetCharacterSet)
  | form (statement : S)
  deriving DecidableEq

/-- A statement behind its `SET`. The other forms are read by `others`. -/
def parse_set {S : Type} (others : SetForm → ParseResult S) : ParseResult (SetStatement S) := do
  let ts ← look id
  if peek_is_contextual_keyword "constraints" ts then
    return .form (← others .constraints)
  else if peek_is_contextual_keyword "names" ts then
    return .form (← others .names)
  else if peek_is_contextual_keyword "session" ts &&
      peek_nth_is_contextual_keyword 1 "characteristics" ts then
    return .form (← others .session_characteristics)
  else if peek_is_contextual_keyword "resource" ts &&
      peek_nth_is_contextual_keyword 1 "group" ts then
    return .form (← others .resource_group)
  else if ← eat_contextual_keyword "charset" then
    return .set_character_set (← parse_set_character_set .Charset)
  else if peek_is_character_set ts then
    advance
    advance
    return .set_character_set (← parse_set_character_set .CharacterSet)
  else if peek_is_contextual_keyword "role" ts then
    return .form (← others .role)
  else
    return .form (← others .variables)

/-! ## Types -/

inductive Charset | Ascii | Unicode | Byte | Named
  deriving DecidableEq

structure CharsetAnnotation where
  charset : Option Charset
  name : Option Name
  binary : Bool
  deriving DecidableEq

def eat_optional_character_set_name : ParseResult (Option Name) := do
  if ← look peek_is_character_set then
    advance
    advance
    return some (← parse_charset_name features)
  else if ← eat_contextual_keyword "charset" then
    return some (← parse_charset_name features)
  else
    return none

def eat_optional_bin_charset : ParseResult (Option (Charset × Option Name)) := do
  if ← eat_contextual_keyword "ascii" then
    return some (.Ascii, none)
  else if ← eat_contextual_keyword "unicode" then
    return some (.Unicode, none)
  else
    match ← eat_optional_character_set_name features with
    | some name => return some (.Named, some name)
    | none => return none

/-- What a type takes behind its name and length. -/
def parse_optional_charset_annotation : ParseResult (Option CharsetAnnotation) := do
  if ← eat_contextual_keyword "binary" then
    match ← eat_optional_bin_charset features with
    | some (kind, name) => return some ⟨some kind, name, true⟩
    | none => return some ⟨none, none, true⟩
  else if ← eat_contextual_keyword "ascii" then
    return some ⟨some .Ascii, none, ← eat_contextual_keyword "binary"⟩
  else if ← eat_contextual_keyword "unicode" then
    return some ⟨some .Unicode, none, ← eat_contextual_keyword "binary"⟩
  else if ← eat_contextual_keyword "byte" then
    return some ⟨some .Byte, none, false⟩
  else
    match ← eat_optional_character_set_name features with
    | some name => return some ⟨some .Named, some name, ← eat_contextual_keyword "binary"⟩
    | none => return none

/-! ## `LOAD DATA` -/

def parse_load_data_charset : ParseResult (Option Name) := do
  if ← look fun ts => peek_is_character_set ts || peek_is_contextual_keyword "charset" ts then
    if ← eat_contextual_keyword "character" then
      if ← eat_contextual_keyword "set" then
        return some (← parse_charset_name features)
      else
        fail "`SET`"
    else if ← eat_contextual_keyword "charset" then
      return some (← parse_charset_name features)
    else
      fail "`CHARSET`"
  else
    return none

/-! ## Options of a database -/

inductive CharsetKeyword | CharacterSet | Charset
  deriving DecidableEq

inductive ReadOnlyValue | Default | Off | On
  deriving DecidableEq

inductive AlterDatabaseOption
  | CharacterSet (default : Bool) (keyword : CharsetKeyword) (equals : Bool) (charset : Name)
  | Collate (default equals : Bool) (collation : Name)
  | Encryption (default equals : Bool) (value : List Char)
  | ReadOnly (equals : Bool) (value : ReadOnlyValue)
  deriving DecidableEq

def read_only_value : Token → Option ReadOnlyValue
  | .keyword .Default => some .Default
  | .number ['0'] => some .Off
  | .number ['1'] => some .On
  | _ => none

def parse_read_only_value : ParseResult ReadOnlyValue :=
  token read_only_value "`DEFAULT`, `0`, or `1` after `READ ONLY`"

def string_literal : Token → Option (List Char)
  | .string raw => some raw
  | _ => none

def parse_charset_option (default : Bool) (keyword : CharsetKeyword) :
    ParseResult AlterDatabaseOption := do
  let equals ← eat_op .Eq
  return .CharacterSet default keyword equals (← parse_alter_database_charset_name features)

def parse_alter_database_option : ParseResult AlterDatabaseOption := do
  let default ← eat_contextual_keyword "default"
  if ← look peek_is_character_set then
    advance
    advance
    parse_charset_option features default .CharacterSet
  else if ← eat_contextual_keyword "charset" then
    parse_charset_option features default .Charset
  else if ← eat_contextual_keyword "collate" then
    let equals ← eat_op .Eq
    return .Collate default equals (← parse_alter_database_charset_name features)
  else if ← eat_contextual_keyword "encryption" then
    let equals ← eat_op .Eq
    return .Encryption default equals
      (← token string_literal "a string value after `ENCRYPTION`")
  else if ← (if default then return false else eat_contextual_keyword "read") then
    if ← eat_contextual_keyword "only" then
      let equals ← eat_op .Eq
      return .ReadOnly equals (← parse_read_only_value)
    else
      fail "`ONLY`"
  else
    fail ("a database option (`[DEFAULT] \x7bCHARACTER SET | CHARSET | COLLATE | ENCRYPTION\x7d` " ++
      "or `READ ONLY`)")

def alter_database_option_leads : List String :=
  ["default", "character", "charset", "collate", "encryption", "read"]

def peek_is_alter_database_option_lead (ts : List Token) : Bool :=
  ts.head?.any fun t => alter_database_option_leads.any (token_is_contextual_keyword · t)

/-- An option of the list, where a word that leads one stands first. -/
def alter_database_turn : ParseResult (Option AlterDatabaseOption) := do
  if ← look peek_is_alter_database_option_lead then
    return some (← parse_alter_database_option features)
  else
    return none

structure AlterDatabaseOptions where
  name : Option Ident
  options : List AlterDatabaseOption
  deriving DecidableEq

/-- A statement behind its `ALTER DATABASE`. -/
def parse_alter_database_options : ParseResult AlterDatabaseOptions := do
  let name ← (do
    if ← look peek_is_alter_database_option_lead then
      return none
    else
      return some (← parse_ident features))
  let first ← parse_alter_database_option features
  return ⟨name, first :: (← many (alter_database_turn features))⟩

/-! ## Options of a table -/

inductive TableOptionValue
  | String (value : List Char)
  | Number (value : List Char)
  | Word (word : Ident)
  deriving DecidableEq

inductive CreateTableOption
  | Tablespace (tablespace : Ident)
  | KeyValue (name : Ident) (value : TableOptionValue)
  deriving DecidableEq

def table_option_value : Token → Option TableOptionValue
  | .string raw => some (.String raw)
  | .number text => some (.Number text)
  | t => (label t).map .Word

def parse_mysql_table_option : ParseResult CreateTableOption := do
  let _ ← eat_contextual_keyword "default"
  let name ← parse_as_alias_ident
  let _ ← eat_op .Eq
  return .KeyValue name (← token table_option_value "an alias")

def parse_tablespace_option : ParseResult CreateTableOption := do
  let _ ← eat_contextual_keyword "tablespace"
  return .Tablespace (← parse_ident features)

/-- Whether a token starts an option. `AS` starts the query of the table and `ON` would start
`ON COMMIT`, which MySQL has not. -/
def starts_mysql_table_option (t : Token) : Bool :=
  t ≠ .keyword .As && !token_is_contextual_keyword "on" t && expr.token_can_be_label t

def parse_create_table_option : ParseResult (Option CreateTableOption) := do
  if ← look (peek_is_contextual_keyword "tablespace") then
    return some (← parse_tablespace_option features)
  else if ← look fun ts => ts.head?.any starts_mysql_table_option then
    return some (← parse_mysql_table_option)
  else
    return none

def parse_create_table_options : ParseResult (List CreateTableOption) :=
  many (parse_create_table_option features)

/-! ## Statements -/

/-- The places of a character-set clause. -/
inductive Position
  | set_statement | data_type | load_data | database_options | table_options
  deriving DecidableEq

inductive Tree (S : Type)
  | set_statement (set : SetStatement S)
  | data_type ( charset : Option CharsetAnnotation)
  | load_data (charset : Option Name)
  | database_options (alter : AlterDatabaseOptions)
  | table_options (options : List CreateTableOption)
  deriving DecidableEq

def Position.read {S : Type} (others : SetForm → ParseResult S) : Position → ParseResult (Tree S)
  | .set_statement => return .set_statement (← parse_set others)
  | .data_type => return .data_type (← parse_optional_charset_annotation features)
  | .load_data => return .load_data (← parse_load_data_charset features)
  | .database_options => return .database_options (← parse_alter_database_options features)
  | .table_options => return .table_options (← parse_create_table_options features)

end

/-! ## Trees up to the spelling -/

def SetStatement.plain {S : Type} : SetStatement S → SetStatement S
  | .set_character_set set => .set_character_set { set with keyword := .CharacterSet }
  | .form statement => .form statement

def AlterDatabaseOption.plain : AlterDatabaseOption → AlterDatabaseOption
  | .CharacterSet default _ equals charset => .CharacterSet default .CharacterSet equals charset
  | option => option

/-- The name of the character-set option of a table, whichever of the two it is written as. -/
def plain_name : Ident → Ident
  | .Word text =>
    if text.map Char.toLower = "charset".toList then .Word "character set".toList else .Word text
  | name => name

def CreateTableOption.plain : CreateTableOption → CreateTableOption
  | .KeyValue name value => .KeyValue (plain_name name) value
  | option => option

/-- The tree with every character-set clause spelled `CHARACTER SET`. -/
def Tree.plain {S : Type} : Tree S → Tree S
  | .set_statement set => .set_statement set.plain
  | .database_options alter =>
    .database_options { alter with options := alter.options.map AlterDatabaseOption.plain }
  | .table_options options => .table_options (options.map CreateTableOption.plain)
  | tree => tree

/-! ## `CHARACTER SET` for `CHARSET` -/

/-- A `CHARSET`, and a `CHARACTER SET` in its place. -/
inductive Spelling : List Token → List Token → Prop
  | intro {charset character set : Token} : spelled charset = some "charset".toList →
    spelled character = some "character".toList → spelled set = some "set".toList →
    Spelling [charset] [character, set]

/-- The `DEFAULT` that may stand in front of an option. -/
inductive DefaultWord : List Token → Bool → Prop
  | absent : DefaultWord [] false
  | written {d : Token} : spelled d = some "default".toList → DefaultWord [d] true

/-- An option that starts with `[DEFAULT] CHARSET`, and the one with `[DEFAULT] CHARACTER SET`. -/
inductive Exchanged : List Token → List Token → Prop
  | intro {pre k k' : List Token} {default : Bool} (post : List Token) :
    DefaultWord pre default → Spelling k k' → Exchanged (pre ++ (k ++ post)) (pre ++ (k' ++ post))

/-- The second text of a place is the first with `CHARACTER SET` for `CHARSET` in one of its
character-set clauses or more. -/
inductive Respelled (features : FeatureSet) : Position → List Token → List Token → Prop
  | set_statement {k k' : List Token} (ts : List Token) : Spelling k k' →
    Respelled features .set_statement (k ++ ts) (k' ++ ts)
  | data_type {k k' : List Token} (ts : List Token) : Spelling k k' →
    Respelled features .data_type (k ++ ts) (k' ++ ts)
  | binary {b : Token} {k k' : List Token} (ts : List Token) :
    spelled b = some "binary".toList → Spelling k k' →
    Respelled features .data_type (b :: (k ++ ts)) (b :: (k' ++ ts))
  | load_data {k k' : List Token} (ts : List Token) : Spelling k k' →
    Respelled features .load_data (k ++ ts) (k' ++ ts)
  | database_options {n : Nat} {ts ts' : List Token} :
    Reader.Respelled (alter_database_turn features) Exchanged n ts ts' → n ≠ 0 →
    Respelled features .database_options ts ts'
  | named_database {n : Nat} {name : Token} {ts ts' : List Token} :
    peek_is_alter_database_option_lead [name] = false →
    Reader.Respelled (alter_database_turn features) Exchanged n ts ts' → n ≠ 0 →
    Respelled features .database_options (name :: ts) (name :: ts')
  | table_options {n : Nat} {ts ts' : List Token} :
    Reader.Respelled (parse_create_table_option features) Exchanged n ts ts' → n ≠ 0 →
    Respelled features .table_options ts ts'

/-! ## One option -/

variable {features : FeatureSet}

theorem peek_is_character_set_cons {word : String} {t : Token} (h : spelled t = some word.toList)
    (ts : List Token) : peek_is_character_set (t :: ts) =
      (word == "character" && peek_is_contextual_keyword "set" ts) := by
  rw [peek_is_character_set, peek_contextual_cons h, peek_nth_cons]
  cases ts <;> rfl

theorem no_character_set {word : String} {t : Token} (h : spelled t = some word.toList)
    (hne : word ≠ "character") (ts : List Token) : peek_is_character_set (t :: ts) = false := by
  rw [peek_is_character_set_cons h, beq_false_of_ne hne, Bool.false_and]

theorem character_set_ahead {c s : Token} (hc : spelled c = some "character".toList)
    (hs : spelled s = some "set".toList) (ts : List Token) :
    peek_is_character_set (c :: s :: ts) = true := by
  rw [peek_is_character_set_cons hc, peek_contextual_cons hs]
  rfl

/-- `CHARACTER SET` in front of what `k` reads. Nothing else starts with `CHARACTER`. -/
theorem fixed_character_set {α : Type} {k m : ParseResult α} (hk : Fixed k) (hm : Fixed m)
    (hother : ∀ {c : Token} {ts : List Token} {p : α × List Token},
      spelled c = some "character".toList → m (c :: ts) ≠ .ok p) :
    Fixed (do
      if ← look peek_is_character_set then
        advance
        advance
        k
      else m) := by
  intro ts a rest h
  simp only [bind_apply, look_apply, bind_ok, ite_reader, advance_apply] at h
  cases ts with
  | nil =>
    obtain ⟨used, hused, hne, -⟩ := hm [] a rest h
    exact absurd (List.append_eq_nil_iff.mp hused.symm).1 hne
  | cons c ts =>
    by_cases hc : spelled c = some "character".toList
    · cases hset : peek_is_contextual_keyword "set" ts with
      | false =>
        rw [peek_is_character_set_cons hc, hset, Bool.and_false, if_neg Bool.false_ne_true] at h
        exact absurd h (hother hc)
      | true =>
        rw [peek_is_character_set_cons hc, hset, if_pos (by rfl)] at h
        cases ts with
        | nil => cases hset
        | cons s ts =>
          obtain ⟨used, rfl, -, hused⟩ := hk _ a rest h
          refine ⟨c :: s :: used, rfl, List.cons_ne_nil c _, fun rest' => ?_⟩
          have hpeek : peek_is_character_set (c :: s :: (used ++ rest')) = true := by
            rw [peek_is_character_set_cons hc]
            exact hset
          simp [hpeek, hused]
    · have hpeek : ∀ ts, peek_is_character_set (c :: ts) = false := by
        intro ts
        have hfirst : peek_is_contextual_keyword "character" (c :: ts) = false := by
          simpa [peek_is_contextual_keyword, token_is_contextual_keyword] using hc
        rw [peek_is_character_set, hfirst, Bool.false_and]
      rw [hpeek, if_neg Bool.false_ne_true] at h
      obtain ⟨used, hts, hne, hused⟩ := hm _ a rest h
      obtain ⟨u, used, rfl⟩ := List.exists_cons_of_ne_nil hne
      obtain ⟨rfl, rfl⟩ := List.cons.inj hts
      refine ⟨c :: used, rfl, hne, fun rest' => ?_⟩
      have hrest := hused rest'
      rw [List.cons_append] at hrest ⊢
      simp [hpeek, hrest]

theorem fixed_charset_option (default : Bool) (keyword : CharsetKeyword) :
    Fixed (parse_charset_option features default keyword) := by
  apply Fixed.accept_bind
  intro equals
  exact (fixed_token _ _).bind_pure _

theorem fixed_alter_database_option : Fixed (parse_alter_database_option features) := by
  apply Fixed.accept_bind
  intro default
  apply fixed_character_set (fixed_charset_option default .CharacterSet)
  · apply Fixed.accept_bind
    intro charset
    cases charset with
    | true => exact fixed_charset_option default .Charset
    | false =>
      apply Fixed.accept_bind
      intro collate
      cases collate with
      | true => exact Fixed.accept_bind _ fun equals => (fixed_token _ _).bind_pure _
      | false =>
        apply Fixed.accept_bind
        intro encryption
        cases encryption with
        | true => exact Fixed.accept_bind _ fun equals => (fixed_token _ _).bind_pure _
        | false =>
          cases default with
          | true => exact fixed_fail _
          | false =>
            apply Fixed.accept_bind
            intro read
            cases read with
            | true =>
              apply Fixed.accept_bind
              intro only
              cases only with
              | true => exact Fixed.accept_bind _ fun equals => (fixed_token _ _).bind_pure _
              | false => exact fixed_fail _
            | false => exact fixed_fail _
  · intro c ts p hc hok
    rw [eat_contextual_other hc (by decide), if_neg Bool.false_ne_true,
      eat_contextual_other hc (by decide), if_neg Bool.false_ne_true,
      eat_contextual_other hc (by decide), if_neg Bool.false_ne_true] at hok
    cases default with
    | true => cases hok
    | false =>
      rw [if_neg Bool.false_ne_true, eat_contextual_other hc (by decide),
        if_neg Bool.false_ne_true] at hok
      cases hok

theorem fixed_alter_database_turn : FixedItem (alter_database_turn features) := by
  apply FixedItem.look_bind
  intro lead
  cases lead with
  | true => exact fixed_alter_database_option.item
  | false => exact fixedItem_none

theorem fixed_create_table_option : FixedItem (parse_create_table_option features) := by
  apply FixedItem.look_bind
  intro tablespace
  cases tablespace with
  | true => exact (Fixed.accept_bind _ fun _ => (fixed_token _ _).bind_pure _).item
  | false =>
    apply FixedItem.look_bind
    intro starts
    cases starts with
    | true =>
      apply Fixed.item
      apply Fixed.accept_bind
      intro _
      apply (fixed_token _ _).bind
      intro name
      exact Fixed.accept_bind _ fun _ => (fixed_token _ _).bind_pure _
    | false => exact fixedItem_none

/-! ## The options of a database -/

theorem eat_default {α : Type} {pre : List Token} {default : Bool} (hpre : DefaultWord pre default)
    {word : String} {t : Token} (h : spelled t = some word.toList) (hne : word ≠ "default")
    (k : Bool → ParseResult α) (ts : List Token) :
    (eat_contextual_keyword "default" >>= k) (pre ++ t :: ts) = k default (t :: ts) := by
  cases hpre with
  | absent => exact eat_contextual_other h hne k ts
  | written hd => exact eat_contextual_same hd k (t :: ts)

theorem alter_option_charset {pre : List Token} {default : Bool} (hpre : DefaultWord pre default)
    {k : Token} (hk : spelled k = some "charset".toList) (ts : List Token) :
    parse_alter_database_option features (pre ++ k :: ts) =
      parse_charset_option features default .Charset ts := by
  rw [parse_alter_database_option, eat_default hpre hk (by decide), bind_apply, look_apply,
    bind_ok, no_character_set hk (by decide), if_neg Bool.false_ne_true, eat_contextual_same hk]
  rfl

theorem alter_option_character_set {pre : List Token} {default : Bool}
    (hpre : DefaultWord pre default) {c s : Token} (hc : spelled c = some "character".toList)
    (hs : spelled s = some "set".toList) (ts : List Token) :
    parse_alter_database_option features (pre ++ c :: s :: ts) =
      parse_charset_option features default .CharacterSet ts := by
  rw [parse_alter_database_option, eat_default hpre hc (by decide), bind_apply, look_apply,
    bind_ok, character_set_ahead hc hs]
  rfl

theorem option_lead {word : String} {t : Token} (h : spelled t = some word.toList)
    (hlead : word ∈ alter_database_option_leads) (ts : List Token) :
    peek_is_alter_database_option_lead (t :: ts) = true := by
  refine List.any_eq_true.mpr ⟨word, hlead, ?_⟩
  rw [is_contextual_keyword h, beq_self_eq_true]

theorem option_lead_default {pre : List Token} {default : Bool} (hpre : DefaultWord pre default)
    {word : String} {t : Token} (h : spelled t = some word.toList)
    (hlead : word ∈ alter_database_option_leads) (ts : List Token) :
    peek_is_alter_database_option_lead (pre ++ t :: ts) = true := by
  cases hpre with
  | absent => exact option_lead h hlead ts
  | written hd => exact option_lead hd (by decide) (t :: ts)

theorem alter_database_turn_of_lead {ts : List Token}
    (hlead : peek_is_alter_database_option_lead ts = true) :
    alter_database_turn features ts =
      (parse_alter_database_option features ts).bind fun p => .ok (some p.1, p.2) := by
  simp [alter_database_turn, hlead]

theorem charset_option_spelling {default : Bool} {ts rest : List Token}
    {option : AlterDatabaseOption}
    (h : parse_charset_option features default .Charset ts = .ok (option, rest)) :
    parse_charset_option features default .CharacterSet ts = .ok (option.plain, rest) := by
  rw [parse_charset_option] at h ⊢
  obtain ⟨⟨equals, mid⟩, hequals, h⟩ := bind_eq_ok.mp h
  obtain ⟨⟨charset, rest⟩, hcharset, h⟩ := bind_eq_ok.mp h
  cases h
  rw [bind_apply, hequals, bind_ok, bind_apply, hcharset]
  rfl

@[simp] theorem plain_plain (option : AlterDatabaseOption) : option.plain.plain = option.plain := by
  cases option <;> rfl

theorem alter_database_follows :
    Follows (alter_database_turn features) Exchanged fun a b => b.plain = a.plain := by
  rintro _ _ option ⟨-, htakes⟩ ⟨post, hpre, ⟨hk, hc, hs⟩⟩
  refine ⟨option.plain, ⟨by simp, fun rest => ?_⟩, plain_plain option⟩
  have hcharset := htakes rest
  simp only [List.append_assoc, List.cons_append, List.nil_append] at hcharset ⊢
  rw [alter_database_turn_of_lead (option_lead_default hpre hk (by decide) _),
    alter_option_charset hpre hk] at hcharset
  obtain ⟨⟨_, _⟩, hoption, heq⟩ := bind_eq_ok.mp hcharset
  cases heq
  rw [alter_database_turn_of_lead (option_lead_default hpre hc (by decide) _),
    alter_option_character_set hpre hc hs]
  exact congrArg (Except.bind · _) (charset_option_spelling hoption)

/-- Every option starts with a word that leads one. -/
theorem lead_of_option {ts rest : List Token} {option : AlterDatabaseOption}
    (h : parse_alter_database_option features ts = .ok (option, rest)) :
    peek_is_alter_database_option_lead ts = true := by
  by_contra hlead
  cases ts with
  | nil =>
    rw [parse_alter_database_option, eat_contextual_keyword, bind_apply, accept_nil] at h
    cases h
  | cons t ts =>
    have hnot : ∀ word ∈ alter_database_option_leads,
        token_is_contextual_keyword word t = false := by
      intro word hword
      cases ht : token_is_contextual_keyword word t with
      | false => rfl
      | true =>
        refine absurd ?_ hlead
        exact List.any_eq_true.mpr ⟨word, hword, ht⟩
    have hset : peek_is_character_set (t :: ts) = false := by
      rw [peek_is_character_set, peek_is_contextual_keyword, List.head?_cons, Option.any_some,
        hnot "character" (by decide), Bool.false_and]
    rw [parse_alter_database_option, eat_of_not (hnot "default" (by decide)), bind_apply,
      look_apply, bind_ok, hset, if_neg Bool.false_ne_true,
      eat_of_not (hnot "charset" (by decide)), if_neg Bool.false_ne_true,
      eat_of_not (hnot "collate" (by decide)), if_neg Bool.false_ne_true,
      eat_of_not (hnot "encryption" (by decide)), if_neg Bool.false_ne_true,
      if_neg Bool.false_ne_true, eat_of_not (hnot "read" (by decide))] at h
    cases h

theorem first_option_eq_ok {name : Option Ident} {ts rest : List Token}
    {alter : AlterDatabaseOptions} :
    (do
      let first ← parse_alter_database_option features
      return ⟨name, first :: (← many (alter_database_turn features))⟩ :
      ParseResult AlterDatabaseOptions) ts = .ok (alter, rest) ↔
      ∃ options, alter = ⟨name, options⟩ ∧ options ≠ [] ∧
        Lists (alter_database_turn features) ts options rest := by
  have hshrinks := (@fixed_alter_database_turn features).shrinks
  constructor
  · intro h
    obtain ⟨⟨first, mid⟩, hfirst, h⟩ := bind_eq_ok.mp h
    obtain ⟨⟨more, rest⟩, hmore, h⟩ := bind_eq_ok.mp h
    cases h
    refine ⟨first :: more, rfl, List.cons_ne_nil first more, .turn ?_ ((many_eq_ok hshrinks).mp hmore)⟩
    rw [alter_database_turn_of_lead (lead_of_option hfirst), hfirst]
    rfl
  · rintro ⟨options, rfl, hne, hlists⟩
    cases hlists with
    | stop _ => exact absurd rfl hne
    | turn hitem hlists =>
      cases hlead : peek_is_alter_database_option_lead ts with
      | false =>
        rw [alter_database_turn, bind_apply, look_apply, bind_ok, hlead] at hitem
        cases hitem
      | true =>
        rw [alter_database_turn_of_lead hlead] at hitem
        obtain ⟨⟨_, _⟩, hfirst, heq⟩ := bind_eq_ok.mp hitem
        cases heq
        rw [bind_apply, hfirst, bind_ok, bind_apply, (many_eq_ok hshrinks).mpr hlists]
        rfl

theorem unnamed_database_eq_ok {ts rest : List Token} {alter : AlterDatabaseOptions}
    (hlead : peek_is_alter_database_option_lead ts = true) :
    parse_alter_database_options features ts = .ok (alter, rest) ↔
      ∃ options, alter = ⟨none, options⟩ ∧ options ≠ [] ∧
        Lists (alter_database_turn features) ts options rest := by
  rw [← first_option_eq_ok, parse_alter_database_options, bind_apply, bind_apply, look_apply,
    bind_ok, hlead]
  rfl

theorem named_database_eq_ok {t : Token} {ts rest : List Token} {alter : AlterDatabaseOptions}
    (hlead : peek_is_alter_database_option_lead [t] = false) :
    parse_alter_database_options features (t :: ts) = .ok (alter, rest) ↔
      ∃ name, expr.column_name features t = some name ∧
        ∃ options, alter = ⟨some name, options⟩ ∧ options ≠ [] ∧
          Lists (alter_database_turn features) ts options rest := by
  have hfirst : peek_is_alter_database_option_lead (t :: ts) = false := hlead
  rw [parse_alter_database_options, bind_apply, bind_apply, look_apply, bind_ok, hfirst,
    if_neg Bool.false_ne_true, bind_apply, parse_ident, token_apply]
  cases hname : expr.column_name features t with
  | none => simp [hname]
  | some name =>
    simp only [List.head?_cons, Option.bind_some, hname, Option.elim_some, List.tail_cons, bind_ok,
      pure_apply, Option.some.injEq, exists_eq_left']
    exact first_option_eq_ok

/-! ## The options of a table -/

theorem mysql_option_name {pre : List Token} {default : Bool} (hpre : DefaultWord pre default)
    {word : String} {t : Token} (h : spelled t = some word.toList) (hne : word ≠ "default")
    {ts rest : List Token} {option : CreateTableOption}
    (hoption : parse_mysql_table_option (pre ++ t :: ts) = .ok (option, rest)) :
    ∃ name value, label t = some name ∧ option = .KeyValue name value := by
  rw [parse_mysql_table_option, eat_default hpre h hne, bind_apply, parse_as_alias_ident,
    token_apply] at hoption
  cases hname : label t with
  | none => simp [hname] at hoption
  | some name =>
    simp only [List.head?_cons, Option.bind_some, hname, Option.elim_some, List.tail_cons,
      bind_ok] at hoption
    obtain ⟨⟨_, mid⟩, -, hoption⟩ := bind_eq_ok.mp hoption
    obtain ⟨⟨value, _⟩, -, hoption⟩ := bind_eq_ok.mp hoption
    cases hoption
    exact ⟨name, value, rfl, rfl⟩

theorem create_table_option_name {pre : List Token} {default : Bool}
    (hpre : DefaultWord pre default) {word : String} {t : Token}
    (h : spelled t = some word.toList) (hne : word ≠ "default") (hspace : word ≠ "tablespace")
    {ts rest : List Token} {option : CreateTableOption}
    (hoption : parse_create_table_option features (pre ++ t :: ts) = .ok (some option, rest)) :
    ∃ name value, label t = some name ∧ option = .KeyValue name value := by
  have hfirst : peek_is_contextual_keyword "tablespace" (pre ++ t :: ts) = false := by
    cases hpre with
    | absent =>
      rw [List.nil_append, peek_contextual_cons h]
      exact beq_false_of_ne hspace
    | written hd => exact peek_contextual_cons hd "tablespace" (t :: ts)
  rw [parse_create_table_option, bind_apply, look_apply, bind_ok, hfirst,
    if_neg Bool.false_ne_true, bind_apply, look_apply, bind_ok, ite_reader] at hoption
  split at hoption
  · obtain ⟨⟨_, _⟩, hmysql, heq⟩ := bind_eq_ok.mp hoption
    cases heq
    exact mysql_option_name hpre h hne hmysql
  · cases hoption

theorem keyword_ne_charset (keyword : Keyword) : keyword.as_str ≠ "charset" := by
  have habsent : "charset".toList ∉ Keyword.letters.val := by decide +kernel
  intro heq
  exact habsent (heq ▸ keyword.mem_letters)

theorem plain_name_charset {k : Token} (hk : spelled k = some "charset".toList) {name : Ident}
    (hname : label k = some name) : plain_name name = .Word "character set".toList := by
  cases k with
  | word text =>
    cases hname
    exact if_pos (Option.some.inj hk)
  | keyword keyword =>
    exact absurd (String.toList_inj.mp (Option.some.inj hk)) (keyword_ne_charset keyword)
  | _ => cases hk

theorem plain_name_character {c : Token} (hc : spelled c = some "character".toList) {name : Ident}
    (hname : label c = some name) : plain_name name ≠ .Word "character set".toList := by
  cases c with
  | word text =>
    cases hname
    have htext := Option.some.inj hc
    rw [plain_name, htext, if_neg (by decide)]
    intro heq
    cases heq
    exact absurd htext (by decide)
  | keyword keyword =>
    cases hname
    intro heq
    cases heq
  | _ => cases hc

theorem create_table_breaks :
    Breaks (parse_create_table_option features) Exchanged fun a b => b.plain = a.plain := by
  rintro _ _ option ⟨-, htakes⟩ ⟨post, hpre, ⟨hk, hc, hs⟩⟩ ts option' rest hoption' hplain
  have hoption := htakes []
  rw [List.append_nil] at hoption
  obtain ⟨name, value, hname, rfl⟩ := create_table_option_name hpre hk (by decide) (by decide) hoption
  rw [List.append_assoc] at hoption'
  obtain ⟨name', value', hname', rfl⟩ :=
    create_table_option_name hpre hc (by decide) (by decide) hoption'
  rw [CreateTableOption.plain, CreateTableOption.plain, plain_name_charset hk hname] at hplain
  exact plain_name_character hc hname' (CreateTableOption.KeyValue.inj hplain).1

/-! ## `SET`, types and `LOAD DATA` -/

theorem parse_set_charset {S : Type} (others : SetForm → ParseResult S) {k : Token}
    (hk : spelled k = some "charset".toList) (ts : List Token) :
    parse_set others (k :: ts) =
      (SetStatement.set_character_set <$> parse_set_character_set .Charset : ParseResult _) ts := by
  simp [parse_set, peek_contextual_cons hk, eat_contextual_cons hk]

theorem parse_set_character_set_words {S : Type} (others : SetForm → ParseResult S) {c s : Token}
    (hc : spelled c = some "character".toList) (hs : spelled s = some "set".toList)
    (ts : List Token) : parse_set others (c :: s :: ts) =
      (SetStatement.set_character_set <$> parse_set_character_set .CharacterSet :
        ParseResult _) ts := by
  simp [parse_set, peek_contextual_cons hc, eat_contextual_cons hc, character_set_ahead hc hs]

theorem set_character_set_spelling {ts rest : List Token} {set : SetCharacterSet}
    (h : parse_set_character_set .Charset ts = .ok (set, rest)) :
    parse_set_character_set .CharacterSet ts =
      .ok ({ set with keyword := .CharacterSet }, rest) := by
  rw [parse_set_character_set] at h ⊢
  obtain ⟨⟨default, mid⟩, hdefault, h⟩ := bind_eq_ok.mp h
  rw [bind_apply, hdefault, bind_ok]
  cases default with
  | true =>
    cases h
    rfl
  | false =>
    obtain ⟨⟨charset, rest⟩, hcharset, h⟩ := bind_eq_ok.mp h
    cases h
    rw [if_neg Bool.false_ne_true, bind_apply, hcharset]
    rfl

/-- Where a character set is read by its clause alone, both spellings give the same reading. -/
theorem eat_character_set_name_spelling {k k' : List Token} (h : Spelling k k') (ts : List Token) :
    eat_optional_character_set_name features (k' ++ ts) =
      eat_optional_character_set_name features (k ++ ts) := by
  cases h with
  | @intro charset character set hk hc hs =>
    simp only [List.cons_append, List.nil_append]
    have hword : eat_optional_character_set_name features (charset :: ts) =
        (do return some (← parse_charset_name features) : ParseResult _) ts := by
      rw [eat_optional_character_set_name, bind_apply, look_apply, bind_ok,
        no_character_set hk (by decide), if_neg Bool.false_ne_true, eat_contextual_same hk,
        if_pos rfl]
    rw [hword, eat_optional_character_set_name, bind_apply, look_apply, bind_ok,
      character_set_ahead hc hs, if_pos rfl]
    rfl

theorem eat_bin_charset_spelling {k k' : List Token} (h : Spelling k k') (ts : List Token) :
    eat_optional_bin_charset features (k' ++ ts) =
      eat_optional_bin_charset features (k ++ ts) := by
  have hname := @eat_character_set_name_spelling features _ _ h ts
  obtain ⟨hk, hc, hs⟩ := h
  simp only [List.cons_append, List.nil_append] at hname ⊢
  rw [eat_optional_bin_charset, eat_contextual_other hc (by decide), if_neg Bool.false_ne_true,
    eat_contextual_other hc (by decide), if_neg Bool.false_ne_true, bind_apply, hname,
    eat_contextual_other hk (by decide), if_neg Bool.false_ne_true,
    eat_contextual_other hk (by decide), if_neg Bool.false_ne_true, bind_apply]

theorem charset_annotation_spelling {k k' : List Token} (h : Spelling k k') (ts : List Token) :
    parse_optional_charset_annotation features (k' ++ ts) =
      parse_optional_charset_annotation features (k ++ ts) := by
  have hname := @eat_character_set_name_spelling features _ _ h ts
  obtain ⟨hk, hc, hs⟩ := h
  simp only [List.cons_append, List.nil_append] at hname ⊢
  rw [ parse_optional_charset_annotation, eat_contextual_other hc (by decide),
    if_neg Bool.false_ne_true, eat_contextual_other hc (by decide), if_neg Bool.false_ne_true,
    eat_contextual_other hc (by decide), if_neg Bool.false_ne_true,
    eat_contextual_other hc (by decide), if_neg Bool.false_ne_true, bind_apply, hname,
    eat_contextual_other hk (by decide), if_neg Bool.false_ne_true,
    eat_contextual_other hk (by decide), if_neg Bool.false_ne_true,
    eat_contextual_other hk (by decide), if_neg Bool.false_ne_true,
    eat_contextual_other hk (by decide), if_neg Bool.false_ne_true, bind_apply]

theorem binary_annotation_spelling {b : Token} (hb : spelled b = some "binary".toList)
    {k k' : List Token} (h : Spelling k k') (ts : List Token) :
    parse_optional_charset_annotation features (b :: (k' ++ ts)) =
      parse_optional_charset_annotation features (b :: (k ++ ts)) := by
  rw [ parse_optional_charset_annotation, eat_contextual_same hb, if_pos rfl, bind_apply,
    eat_bin_charset_spelling h, eat_contextual_same hb, if_pos rfl, bind_apply]

theorem load_data_spelling {k k' : List Token} (h : Spelling k k') (ts : List Token) :
    parse_load_data_charset features (k' ++ ts) = parse_load_data_charset features (k ++ ts) := by
  cases h with
  | @intro charset character set hk hc hs =>
    simp only [List.cons_append, List.nil_append]
    have hword : parse_load_data_charset features (charset :: ts) =
        (do return some (← parse_charset_name features) : ParseResult _) ts := by
      rw [parse_load_data_charset, bind_apply, look_apply, bind_ok,
        no_character_set hk (by decide), Bool.false_or, peek_contextual_cons hk, beq_self_eq_true,
        if_pos rfl, eat_contextual_other hk (by decide), if_neg Bool.false_ne_true,
        eat_contextual_same hk, if_pos rfl]
    rw [hword, parse_load_data_charset, bind_apply, look_apply, bind_ok, character_set_ahead hc hs,
      Bool.true_or, if_pos rfl, eat_contextual_same hc, if_pos rfl, eat_contextual_same hs,
      if_pos rfl]

/-! ## Statements -/

variable {S : Type} {others : SetForm → ParseResult S}

theorem forall₂_plain {α β : Type} {f : α → β} {as bs : List α} :
    List.Forall₂ (fun a b => f b = f a) as bs ↔ bs.map f = as.map f := by
  rw [eq_comm, ← List.forall₂_eq_eq_eq, List.forall₂_map_left_iff, List.forall₂_map_right_iff]
  simp only [eq_comm]

/-- The list of a database follows. -/
theorem database_options_follow {n : Nat} {ts ts' rest : List Token}
    {options : List AlterDatabaseOption}
    (hts : Reader.Respelled (alter_database_turn features) Exchanged n ts ts')
    (hlists : Lists (alter_database_turn features) ts options rest) (hne : options ≠ []) :
    ∃ options', options' ≠ [] ∧ options'.map AlterDatabaseOption.plain =
      options.map AlterDatabaseOption.plain ∧
      Lists (alter_database_turn features) ts' options' rest := by
  obtain ⟨options', hlists', hplain⟩ := alter_database_follows.lists (fun _ => rfl) hts hlists
  have hmap := forall₂_plain.mp hplain
  refine ⟨options', fun hnil => hne ?_, hmap, hlists'⟩
  rw [hnil] at hmap
  exact List.map_eq_nil_iff.mp hmap.symm

theorem lead_of_lists {n : Nat} {ts ts' : List Token}
    (hts : Reader.Respelled (alter_database_turn features) Exchanged n ts ts') (hn : n ≠ 0) :
    peek_is_alter_database_option_lead ts = true ∧
      peek_is_alter_database_option_lead ts' = true := by
  have hlead : ∀ {used : List Token} {option : AlterDatabaseOption} (rest : List Token),
      Takes (alter_database_turn features) used (some option) →
      peek_is_alter_database_option_lead (used ++ rest) = true := by
    intro used option rest htakes
    cases hlead : peek_is_alter_database_option_lead (used ++ rest) with
    | true => rfl
    | false =>
      have hitem := htakes.2 rest
      rw [alter_database_turn, bind_apply, look_apply, bind_ok, hlead] at hitem
      cases hitem
  cases hts with
  | stop _ => exact absurd rfl hn
  | keep htakes _ => exact ⟨hlead _ htakes, hlead _ htakes⟩
  | swap htakes hswap _ =>
    obtain ⟨_, htakes', -⟩ := alter_database_follows _ _ _ htakes hswap
    exact ⟨hlead _ htakes, hlead _ htakes'⟩

theorem read_database {ts rest : List Token} {tree : Tree S} :
    Position.read features others .database_options ts = .ok (tree, rest) ↔
      ∃ alter, parse_alter_database_options features ts = .ok (alter, rest) ∧
        tree = .database_options alter := by
  rw [Position.read, bind_apply, bind_eq_ok]
  constructor
  · rintro ⟨⟨alter, _⟩, halter, heq⟩
    cases heq
    exact ⟨alter, halter, rfl⟩
  · rintro ⟨alter, halter, rfl⟩
    exact ⟨_, halter, rfl⟩

theorem read_table {ts rest : List Token} {tree : Tree S} :
    Position.read features others .table_options ts = .ok (tree, rest) ↔
      ∃ options, Lists (parse_create_table_option features) ts options rest ∧
        tree = .table_options options := by
  rw [Position.read, bind_apply, bind_eq_ok]
  constructor
  · rintro ⟨⟨options, _⟩, hoptions, heq⟩
    cases heq
    exact ⟨options, (many_eq_ok fixed_create_table_option.shrinks).mp hoptions, rfl⟩
  · rintro ⟨options, hoptions, rfl⟩
    exact ⟨_, (many_eq_ok fixed_create_table_option.shrinks).mpr hoptions, rfl⟩

theorem respelled_set_statement {k k' ts rest : List Token} {tree : Tree S} (h : Spelling k k')
    (hread : Position.read features others .set_statement (k ++ ts) = .ok (tree, rest)) :
    ∃ tree', Position.read features others .set_statement (k' ++ ts) = .ok (tree', rest) ∧
      tree'.plain = tree.plain := by
  obtain ⟨hk, hc, hs⟩ := h
  simp only [List.cons_append, List.nil_append] at hread ⊢
  rw [Position.read, bind_apply, parse_set_charset others hk, map_apply] at hread
  obtain ⟨⟨_, _⟩, hform, hread⟩ := bind_eq_ok.mp hread
  obtain ⟨⟨set, _⟩, hset, heq⟩ := bind_eq_ok.mp hform
  cases heq
  cases hread
  refine ⟨.set_statement (.set_character_set { set with keyword := .CharacterSet }), ?_, rfl⟩
  rw [Position.read, bind_apply, parse_set_character_set_words others hc hs, map_apply,
    set_character_set_spelling hset]
  rfl

theorem respelled_reads {position : Position} {ts ts' rest : List Token} {tree : Tree S}
    (hts : Respelled features position ts ts') (hposition : position ≠ .table_options)
    (hread : position.read features others ts = .ok (tree, rest)) :
    ∃ tree', position.read features others ts' = .ok (tree', rest) ∧ tree'.plain = tree.plain := by
  cases hts with
  | set_statement ts h => exact respelled_set_statement h hread
  | data_type ts h =>
    refine ⟨tree, ?_, rfl⟩
    rw [Position.read, bind_apply, charset_annotation_spelling h]
    exact hread
  | binary ts hb h =>
    refine ⟨tree, ?_, rfl⟩
    rw [Position.read, bind_apply, binary_annotation_spelling hb h]
    exact hread
  | load_data ts h =>
    refine ⟨tree, ?_, rfl⟩
    rw [Position.read, bind_apply, load_data_spelling h]
    exact hread
  | database_options hts hn =>
    obtain ⟨hlead, hlead'⟩ := lead_of_lists hts hn
    obtain ⟨alter, halter, rfl⟩ := read_database.mp hread
    obtain ⟨options, rfl, hne, hlists⟩ := (unnamed_database_eq_ok hlead).mp halter
    obtain ⟨options', hne', hplain, hlists'⟩ := database_options_follow hts hlists hne
    refine ⟨.database_options ⟨none, options'⟩, read_database.mpr ⟨_, ?_, rfl⟩, ?_⟩
    · exact (unnamed_database_eq_ok hlead').mpr ⟨options', rfl, hne', hlists'⟩
    · rw [Tree.plain, Tree.plain, hplain]
  | named_database hlead hts hn =>
    obtain ⟨alter, halter, rfl⟩ := read_database.mp hread
    obtain ⟨name, hname, options, rfl, hne, hlists⟩ := (named_database_eq_ok hlead).mp halter
    obtain ⟨options', hne', hplain, hlists'⟩ := database_options_follow hts hlists hne
    refine ⟨.database_options ⟨some name, options'⟩, read_database.mpr ⟨_, ?_, rfl⟩, ?_⟩
    · exact (named_database_eq_ok hlead).mpr ⟨name, hname, options', rfl, hne', hlists'⟩
    · rw [Tree.plain, Tree.plain, hplain]
  | table_options _ _ => exact absurd rfl hposition

/-- `CHARACTER SET` is read as `CHARSET` is, with the same tree up to the spelling and the same
tokens left, in every place but among the options of a table. -/
theorem charset_interchangeable_iff {position : Position} {ts ts' rest : List Token}
    {tree : Tree S} (hts : Respelled features position ts ts')
    (hread : position.read features others ts = .ok (tree, rest)) :
    (∃ tree', position.read features others ts' = .ok (tree', rest) ∧
      tree'.plain = tree.plain) ↔ position ≠ .table_options := by
  constructor
  · rintro ⟨tree', hread', hplain⟩ rfl
    cases hts with
    | table_options hts hn =>
      obtain ⟨options, hlists, rfl⟩ := read_table.mp hread
      obtain ⟨options', hlists', rfl⟩ := read_table.mp hread'
      refine create_table_breaks.lists hts hn hlists hlists' (forall₂_plain.mpr ?_)
      exact Tree.table_options.inj hplain
  · intro hposition
    exact respelled_reads hts hposition hread

/-- The options `DEFAULT CHARSET = 'utf8mb4' READ ONLY 0` of a database. -/
theorem charset_interchangeable_database :
    ∃ tree', Position.read .MYSQL (fun _ => (fail "" : ParseResult Unit)) .database_options
      [.keyword .Default, .word "CHARACTER".toList, .keyword .Set, .operator .Eq,
        .string "'utf8mb4'".toList, .word "READ".toList, .keyword .Only, .number ['0']] =
        .ok (tree', []) ∧
      tree'.plain = .database_options ⟨none,
        [.CharacterSet true .CharacterSet true (.text "'utf8mb4'".toList),
          .ReadOnly false .Off]⟩ := by
  obtain ⟨used, hused, htakes⟩ := @fixed_alter_database_turn .MYSQL
    [.keyword .Default, .word "CHARSET".toList, .operator .Eq, .string "'utf8mb4'".toList]
    (.CharacterSet true .Charset true (.text "'utf8mb4'".toList)) [] rfl
  obtain ⟨used', hused', hreads⟩ := @fixed_alter_database_turn .MYSQL
    [.word "READ".toList, .keyword .Only, .number ['0']] (.ReadOnly false .Off) [] rfl
  rw [List.append_nil] at hused hused'
  subst hused hused'
  have hspelling : Spelling [.word "CHARSET".toList] [.word "CHARACTER".toList, .keyword .Set] :=
    .intro rfl rfl rfl
  have hdefault : DefaultWord [.keyword .Default] true := .written rfl
  have hexchanged := Exchanged.intro [.operator .Eq, .string "'utf8mb4'".toList] hdefault hspelling
  have hts : Respelled .MYSQL .database_options
      [.keyword .Default, .word "CHARSET".toList, .operator .Eq, .string "'utf8mb4'".toList,
        .word "READ".toList, .keyword .Only, .number ['0']]
      [.keyword .Default, .word "CHARACTER".toList, .keyword .Set, .operator .Eq,
        .string "'utf8mb4'".toList, .word "READ".toList, .keyword .Only, .number ['0']] :=
    .database_options (.swap htakes hexchanged (.keep hreads (.stop rfl))) (Nat.succ_ne_zero 0)
  exact (charset_interchangeable_iff hts rfl).mpr (by decide)

/-- `DEFAULT CHARSET = utf8mb4` is an option of a table. With `CHARACTER SET` it is the option
`CHARACTER` with the value `SET`, and the list ends in front of the `=`. -/
theorem charset_table_option_cut :
    Position.read .MYSQL (fun _ => (fail "" : ParseResult Unit)) .table_options
      [.keyword .Default, .word "CHARSET".toList, .operator .Eq, .word "utf8mb4".toList] =
      .ok (.table_options [.KeyValue (.Word "CHARSET".toList) (.Word (.Word "utf8mb4".toList))],
        []) ∧
    ∀ tree', Position.read .MYSQL (fun _ => (fail "" : ParseResult Unit)) .table_options
      [.keyword .Default, .word "CHARACTER".toList, .keyword .Set, .operator .Eq,
        .word "utf8mb4".toList] ≠ .ok (tree', []) := by
  refine ⟨rfl, fun tree' hread => ?_⟩
  have hcut : parse_create_table_options .MYSQL
      [.keyword .Default, .word "CHARACTER".toList, .keyword .Set, .operator .Eq,
        .word "utf8mb4".toList] =
      .ok ([.KeyValue (.Word "CHARACTER".toList) (.Word (.Keyword .Set))],
        [.operator .Eq, .word "utf8mb4".toList]) := rfl
  rw [Position.read, bind_apply, hcut] at hread
  cases hread

end squonk.parser.clause.character_set
