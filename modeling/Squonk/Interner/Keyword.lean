import Mathlib.Data.List.Chain
import Mathlib.Data.List.Nodup
import Mathlib.Data.String.Basic
import Squonk.Letters.Basic

/-!
# Keyword slots

The canonical spellings of the keywords, in the order of the slots they hold in every symbol
table.
-/

namespace squonk.interner

@[irreducible] def KEYWORDS : List String :=
  ["a", "abort", "abs", "absent", "absolute", "access", "accessible", "acos", "action", "ada",
   "add", "admin", "after", "aggregate", "all", "allocate", "also", "alter", "always", "analyse",
   "analyze", "and", "anti", "any", "apply", "are", "array", "array_agg",
   "array_max_cardinality", "as", "asc", "asensitive", "asin", "asof", "assertion", "assignment",
   "asymmetric", "at", "atan", "atomic", "attach", "attribute", "attributes", "authorization",
   "avg", "backward", "before", "begin", "begin_frame", "begin_partition", "bernoulli",
   "between", "bigint", "binary", "bit", "blob", "boolean", "both", "breadth", "by", "c",
   "cache", "call", "called", "cardinality", "cascade", "cascaded", "case", "cast", "catalog",
   "catalog_name", "ceil", "ceiling", "chain", "chaining", "change", "char", "char_length",
   "character", "character_length", "character_set_catalog", "character_set_name",
   "character_set_schema", "characteristics", "characters", "check", "checkpoint", "class",
   "class_origin", "classifier", "clob", "close", "cluster", "coalesce", "cobol", "collate",
   "collation", "collation_catalog", "collation_name", "collation_schema", "collect", "column",
   "column_name", "columns", "command_function", "command_function_code", "comment", "comments",
   "commit", "committed", "compression", "concurrently", "condition", "condition_number",
   "conditional", "configuration", "conflict", "connect", "connection", "connection_name",
   "constraint", "constraint_catalog", "constraint_name", "constraint_schema", "constraints",
   "constructor", "contained", "contains", "content", "continue", "conversion", "convert",
   "copy", "corr", "corresponding", "cos", "cosh", "cost", "count", "covar_pop", "covar_samp",
   "create", "cross", "csv", "cube", "cume_dist", "current", "current_catalog", "current_date",
   "current_default_transform_group", "current_path", "current_role", "current_row",
   "current_schema", "current_time", "current_timestamp", "current_transform_group_for_type",
   "current_user", "cursor", "cursor_name", "cycle", "data", "database", "databases", "date",
   "datetime_interval_code", "datetime_interval_precision", "day", "day_hour", "day_microsecond",
   "day_minute", "day_second", "deallocate", "dec", "decfloat", "decimal", "declare", "default",
   "defaults", "deferrable", "deferred", "define", "defined", "definer", "degree", "delayed",
   "delete", "delimiter", "delimiters", "dense_rank", "depends", "depth", "deref", "derived",
   "desc", "describe", "descriptor", "destination", "detach", "deterministic", "diagnostics",
   "dictionary", "disable", "discard", "disconnect", "dispatch", "distinct", "distinctrow",
   "div", "do", "document", "domain", "double", "drop", "dual", "dynamic", "dynamic_function",
   "dynamic_function_code", "each", "edge", "element", "else", "elseif", "empty", "enable",
   "enclosed", "encoding", "encrypted", "end", "end_frame", "end_partition", "enforced", "enum",
   "equals", "error", "escape", "escaped", "event", "every", "except", "exclude", "excluding",
   "exclusive", "exec", "execute", "exists", "exit", "exp", "explain", "expression", "extend",
   "extension", "external", "extract", "false", "family", "fetch", "filter", "final", "finalize",
   "finish", "first", "first_value", "flag", "float", "float4", "float8", "floor", "following",
   "for", "force", "foreign", "format", "fortran", "forward", "found", "frame_row", "free",
   "freeze", "from", "fulfill", "full", "fulltext", "function", "functions", "fusion", "g",
   "general", "generated", "get", "glob", "global", "go", "goto", "grant", "granted", "graph",
   "graph_table", "greatest", "group", "grouping", "groups", "handler", "having", "header",
   "hierarchy", "high_priority", "hold", "hour", "hour_microsecond", "hour_minute",
   "hour_second", "identity", "if", "ignore", "ilike", "immediate", "immediately", "immutable",
   "implementation", "implicit", "import", "in", "include", "including", "increment", "indent",
   "index", "indexed", "indexes", "indicator", "infile", "inherit", "inherits", "initial",
   "initially", "inline", "inner", "inout", "input", "insensitive", "insert", "instance",
   "instantiable", "instead", "int", "int1", "int2", "int3", "int4", "int8", "integer",
   "intersect", "intersection", "interval", "into", "invoker", "io_after_gtids",
   "io_before_gtids", "is", "isnull", "isolation", "iterate", "join", "json", "json_array",
   "json_arrayagg", "json_exists", "json_object", "json_objectagg", "json_query", "json_scalar",
   "json_serialize", "json_table", "json_table_primitive", "json_value", "k", "keep", "key",
   "key_member", "key_type", "keys", "kill", "label", "lag", "language", "large", "last",
   "last_value", "lateral", "lead", "leading", "leakproof", "least", "leave", "left", "length",
   "level", "like", "like_regex", "limit", "linear", "lines", "listagg", "listen", "ln", "load",
   "local", "localtime", "localtimestamp", "location", "locator", "lock", "locked", "log",
   "log10", "logged", "long", "longblob", "longtext", "loop", "low_priority", "lower", "lsn",
   "m", "map", "mapping", "match", "match_number", "match_recognize", "matched", "matches",
   "materialized", "max", "maxvalue", "measures", "mediumblob", "mediumint", "mediumtext",
   "member", "merge", "merge_action", "message_length", "message_octet_length", "message_text",
   "method", "middleint", "min", "minute", "minute_microsecond", "minute_second", "minvalue",
   "mod", "mode", "modifies", "module", "month", "more", "move", "multiset", "mumps", "name",
   "names", "national", "natural", "nchar", "nclob", "nested", "nesting", "new", "next", "nfc",
   "nfd", "nfkc", "nfkd", "no", "no_write_to_binlog", "node", "none", "normalize", "normalized",
   "not", "nothing", "notify", "notnull", "nowait", "nth_value", "ntile", "null",
   "null_ordering", "nullable", "nullif", "nulls", "number", "numeric", "object", "objects",
   "occurrence", "occurrences_regex", "octet_length", "octets", "of", "off", "offset", "oids",
   "old", "omit", "on", "one", "only", "open", "openjson", "operator", "optimize", "option",
   "optionally", "options", "or", "order", "ordering", "ordinality", "others", "out", "outer",
   "outfile", "output", "over", "overflow", "overlaps", "overlay", "overriding", "owned",
   "owner", "p", "pad", "parallel", "parameter", "parameter_mode", "parameter_name",
   "parameter_ordinal_position", "parameter_specific_catalog", "parameter_specific_name",
   "parameter_specific_schema", "parser", "partial", "partition", "partitions", "pascal", "pass",
   "passing", "password", "past", "path", "pattern", "per", "percent", "percent_rank",
   "percentile_cont", "percentile_disc", "period", "permute", "pipe", "pivot", "placing", "plan",
   "plans", "pli", "policy", "portion", "position", "position_regex", "positional", "power",
   "precedes", "preceding", "precision", "prepare", "prepared", "preserve", "prev", "primary",
   "prior", "private", "privileges", "procedural", "procedure", "procedures", "program",
   "properties", "property", "prune", "ptf", "public", "publication", "purge", "qualify",
   "quote", "quotes", "range", "rank", "read", "read_write", "reads", "real", "reassign",
   "recursive", "ref", "references", "referencing", "refresh", "regexp", "regr_avgx",
   "regr_avgy", "regr_count", "regr_intercept", "regr_r2", "regr_slope", "regr_sxx", "regr_sxy",
   "regr_syy", "reindex", "relationship", "relative", "release", "rename", "repack", "repeat",
   "repeatable", "replace", "replica", "require", "reset", "resignal", "respect", "restart",
   "restrict", "result", "return", "returned_cardinality", "returned_length",
   "returned_octet_length", "returned_sqlstate", "returning", "returns", "revoke", "right",
   "rlike", "role", "rollback", "rollup", "routine", "routine_catalog", "routine_name",
   "routine_schema", "routines", "row", "row_count", "row_number", "rows", "rule", "running",
   "savepoint", "scalar", "scale", "schema", "schema_name", "schemas", "scope", "scope_catalog",
   "scope_name", "scope_schema", "scroll", "search", "second", "second_microsecond", "section",
   "security", "seek", "select", "self", "semantics", "semi", "sensitive", "separator",
   "sequence", "sequences", "serializable", "server", "server_name", "session", "session_user",
   "set", "setof", "sets", "share", "show", "signal", "similar", "simple", "sin", "sinh", "size",
   "skip", "smallint", "snapshot", "some", "sort_direction", "source", "space", "spatial",
   "specific", "specific_name", "specifictype", "split", "sql", "sql_big_result",
   "sql_calc_found_rows", "sql_small_result", "sqlexception", "sqlstate", "sqlwarning", "sqrt",
   "ssl", "stable", "standalone", "start", "starting", "state", "statement", "static",
   "statistics", "stddev_pop", "stddev_samp", "stdin", "stdout", "storage", "stored",
   "straight_join", "strict", "string", "strip", "structure", "style", "subclass_origin",
   "submultiset", "subscription", "subset", "substring", "substring_regex", "succeeds", "sum",
   "support", "symmetric", "sysid", "system", "system_time", "system_user", "t", "table",
   "table_name", "tables", "tablesample", "tablespace", "tan", "tanh", "target", "temp",
   "template", "temporary", "terminated", "text", "then", "through", "ties", "time", "timestamp",
   "timezone_hour", "timezone_minute", "tinyblob", "tinyint", "tinytext", "to",
   "top_level_count", "trailing", "transaction", "transaction_active", "transactions_committed",
   "transactions_rolled_back", "transform", "transforms", "translate", "translate_regex",
   "translation", "treat", "trigger", "trigger_catalog", "trigger_name", "trigger_schema",
   "trim", "trim_array", "true", "truncate", "trusted", "type", "types", "uescape", "unbounded",
   "uncommitted", "unconditional", "under", "undo", "unencrypted", "union", "unique", "unknown",
   "unlisten", "unlock", "unlogged", "unmatched", "unnamed", "unnest", "unpivot", "unsigned",
   "until", "update", "upper", "usage", "use", "user", "user_defined_type_catalog",
   "user_defined_type_code", "user_defined_type_name", "user_defined_type_schema", "using",
   "utc_date", "utc_time", "utc_timestamp", "utf16", "utf32", "utf8", "vacuum", "valid",
   "validate", "validator", "value", "value_of", "values", "var_pop", "var_samp", "varbinary",
   "varchar", "varcharacter", "variadic", "varying", "verbose", "version", "versioning",
   "vertex", "view", "views", "virtual", "volatile", "wait", "when", "whenever", "where",
   "while", "whitespace", "width_bucket", "window", "with", "within", "without", "work",
   "wrapper", "write", "xml", "xmlattributes", "xmlconcat", "xmlelement", "xmlexists",
   "xmlforest", "xmlnamespaces", "xmlparse", "xmlpi", "xmlroot", "xmlserialize", "xmltable",
   "xor", "year", "year_month", "yes", "zerofill", "zone"]

def KEYWORD_COUNT : Nat := KEYWORDS.length

/-- Whether a word stands before another, character by character. -/
def before : List Char → List Char → Bool
  | _, [] => false
  | [], _ :: _ => true
  | c :: cs, d :: ds => decide (c.toNat < d.toNat) || c.toNat == d.toNat && before cs ds

theorem lt_of_before {word next : List Char} (h : before word next = true) : word < next := by
  fun_induction before word next with
  | case1 word => cases h
  | case2 d ds => exact List.nil_lt_cons d ds
  | case3 c cs d ds ih =>
    rw [Bool.or_eq_true, Bool.and_eq_true, decide_eq_true_eq, beq_iff_eq] at h
    rw [List.cons_lt_cons_iff]
    rcases h with hlt | ⟨heq, hrest⟩
    · exact Or.inl hlt
    · exact Or.inr ⟨Char.toNat_inj.mp heq, ih hrest⟩

def is_lower (word : List Char) : Bool := word.all fun c => c.toLower == c

theorem lower_of_is_lower {word : List Char} (h : is_lower word = true) :
    word.map Char.toLower = word := by
  have hsame : ∀ c ∈ word, c.toLower = id c := fun c hc =>
    beq_iff_eq.mp (List.all_eq_true.mp h c hc)
  rw [List.map_congr_left hsame, List.map_id]

/-- Whether words are in strict order and in lower case. -/
def in_order : List (List Char) → Bool
  | [] => true
  | [word] => is_lower word
  | word :: next :: words => is_lower word && before word next && in_order (next :: words)

theorem in_order_lower {words : List (List Char)} (h : in_order words = true) :
    ∀ word ∈ words, word.map Char.toLower = word := by
  fun_induction in_order words with
  | case1 => intro word hword; cases hword
  | case2 word =>
    intro word' hword
    rw [List.mem_singleton.mp hword]
    exact lower_of_is_lower h
  | case3 word next words ih =>
    rw [Bool.and_eq_true, Bool.and_eq_true] at h
    intro word' hword
    rcases List.mem_cons.mp hword with rfl | hword
    · exact lower_of_is_lower h.1.1
    · exact ih h.2 word' hword

theorem in_order_nodup {words : List (List Char)} (h : in_order words = true) : words.Nodup := by
  have hchain : List.IsChain (· < ·) words := by
    fun_induction in_order words with
    | case1 => exact List.IsChain.nil
    | case2 word => exact List.IsChain.singleton word
    | case3 word next words ih =>
      rw [Bool.and_eq_true, Bool.and_eq_true] at h
      exact List.IsChain.cons_cons (lt_of_before h.1.2) (ih h.2)
  exact hchain.pairwise.imp fun hlt heq => absurd (heq ▸ hlt) (lt_irrefl _)

set_option maxRecDepth 20000 in
theorem keywords_in_order : in_order (KEYWORDS.map String.toList) = true := by
  -- The characters are read off the literals: the kernel takes far longer to decode their bytes.
  have hspelled : ∃ words, letters.Letters KEYWORDS words ∧ in_order words = true := by
    apply Exists.intro
    apply And.intro
    · unfold KEYWORDS
      dsimp only
      repeat apply letters.Letters.cons rfl
      exact .nil
    · decide +kernel
  obtain ⟨words, hwords, horder⟩ := hspelled
  rw [hwords.map_toList]
  exact horder

theorem keywords_nodup : KEYWORDS.Nodup :=
  List.Nodup.of_map String.toList (in_order_nodup keywords_in_order)

theorem keywords_lower : ∀ s ∈ KEYWORDS, s.toList.map Char.toLower = s.toList := by
  intro s hs
  exact in_order_lower keywords_in_order _ (List.mem_map.mpr ⟨s, hs, rfl⟩)

end squonk.interner
