import Squonk.Dialect.Feature

/-!
# The dialects the crate ships
-/

open squonk.ast squonk.precedence squonk.tokenizer

namespace squonk.dialect

namespace keyword

def RESERVED_COLUMN_NAME : Keyword → Bool
  | .And | .Or | .Not | .Is | .Isnull | .Notnull | .Distinct | .From | .Null | .True | .False
  | .In | .Symmetric | .Asymmetric | .Like | .Ilike | .Similar | .To | .Overlaps | .Any | .All
  | .Some | .Collate | .Array | .With | .Unique | .Select | .Table | .As | .Using | .Default
  | .Order | .Asc | .Desc | .Limit | .Offset | .Fetch | .Only | .For | .Union | .Intersect
  | .Except | .Binary => true
  | _ => false

def QUILTDB_RESERVED_COLUMN_NAME : Keyword → Bool
  | .And | .Or | .Not | .Is | .Isnull | .Notnull | .Distinct | .From | .Null | .True | .False
  | .In | .Symmetric | .Asymmetric | .Like | .Ilike | .Similar | .To | .Overlaps | .Any | .All
  | .Some | .Collate | .Array | .With | .Unique | .Select | .Table | .As | .Using | .Default
  | .Order | .Asc | .Desc | .Limit | .Offset | .Fetch | .Only | .For | .Union | .Intersect
  | .Except | .Pivot | .Unpivot | .Binary => true
  | _ => false

def MYSQL_RESERVED_COLUMN_NAME : Keyword → Bool
  | .And | .Or | .Not | .Xor | .Div | .Mod | .Rlike | .Regexp | .Match | .Is | .Distinct
  | .From | .Null | .True | .False | .In | .Between | .Like | .To | .All | .Collate | .With
  | .Unique | .Keys | .Select | .Table | .Values | .Recursive | .As | .Using | .Key | .By
  | .Set | .Default | .Order | .Asc | .Desc | .Limit | .Fetch | .Row | .Rows | .For | .Update
  | .Of | .Lock | .Union | .Intersect | .Except | .Binary | .Int | .Integer | .Varchar => true
  | _ => false

def SQLITE_RESERVED_COLUMN_NAME : Keyword → Bool
  | .And | .Or | .Not | .Is | .Isnull | .Notnull | .Distinct | .From | .Null | .In | .Between
  | .To | .Escape | .All | .Collate | .Unique | .Select | .Table | .Values | .As | .Using
  | .Set | .Default | .Order | .Limit | .Update | .Union | .Intersect | .Except => true
  | _ => false

def DUCKDB_RESERVED_COLUMN_NAME : Keyword → Bool
  | .And | .Or | .Not | .Is | .Isnull | .Notnull | .Distinct | .From | .Null | .True | .False
  | .In | .Symmetric | .Asymmetric | .Like | .Ilike | .Similar | .To | .Overlaps | .Any | .All
  | .Some | .Collate | .Array | .With | .Unique | .Lambda | .Select | .Table | .As | .Using
  | .Default | .Order | .Asc | .Desc | .Limit | .Offset | .Fetch | .Only | .For | .Union
  | .Intersect | .Except | .Pivot | .Unpivot | .Binary => true
  | _ => false

def LENIENT_RESERVED_COLUMN_NAME : Keyword → Bool
  | .And | .Or | .Not | .Is | .Isnull | .Notnull | .Distinct | .From | .Null | .True | .False
  | .In | .Symmetric | .Asymmetric | .Like | .Ilike | .Similar | .To | .Overlaps | .Any | .All
  | .Some | .Collate | .Array | .With | .Unique | .Lambda | .Select | .Table | .As | .Using
  | .Default | .Order | .Asc | .Desc | .Limit | .Offset | .Fetch | .Only | .For | .Union
  | .Intersect | .Except | .Binary => true
  | _ => false

def RESERVED_WORDS : List String :=
  ["analyse", "analyze", "authorization", "both", "case", "cast", "check", "collation",
   "column", "concurrently", "constraint", "create", "cross", "current_catalog",
   "current_date", "current_role", "current_schema", "current_time", "current_timestamp",
   "current_user", "deferrable", "do", "else", "end", "foreign", "freeze", "full", "grant",
   "group", "having", "initially", "inner", "into", "join", "lateral", "leading", "left",
   "localtime", "localtimestamp", "natural", "on", "outer", "placing", "primary", "references",
   "returning", "right", "session_user", "system_user", "tablesample", "then", "trailing",
   "user", "variadic", "verbose", "when", "where", "window"]

def QUILTDB_RESERVED_WORDS : List String :=
  ["qualify"] ++ RESERVED_WORDS

def MYSQL_RESERVED_WORDS : List String :=
  ["accessible", "add", "alter", "analyze", "asensitive", "before", "bigint", "blob", "both",
   "call", "cascade", "case", "cast", "change", "char", "character", "check", "column",
   "condition", "constraint", "continue", "convert", "create", "cross", "cube", "cume_dist",
   "current_catalog", "current_date", "current_role", "current_schema", "current_time",
   "current_timestamp", "current_user", "cursor", "database", "databases", "day_hour",
   "day_microsecond", "day_minute", "day_second", "dec", "decimal", "declare", "delayed",
   "delete", "dense_rank", "describe", "deterministic", "distinctrow", "double", "drop",
   "dual", "each", "else", "elseif", "empty", "enclosed", "escaped", "exists", "exit",
   "explain", "first_value", "float", "float4", "float8", "force", "foreign", "fulltext",
   "function", "generated", "get", "grant", "group", "grouping", "groups", "having",
   "high_priority", "hour_microsecond", "hour_minute", "hour_second", "if", "ignore", "index",
   "infile", "inner", "inout", "insensitive", "insert", "int1", "int2", "int3", "int4", "int8",
   "interval", "into", "io_after_gtids", "io_before_gtids", "iterate", "join", "json_table",
   "kill", "lag", "last_value", "lateral", "lead", "leading", "leave", "left", "linear",
   "lines", "load", "localtime", "localtimestamp", "long", "longblob", "longtext", "loop",
   "low_priority", "maxvalue", "mediumblob", "mediumint", "mediumtext", "middleint",
   "minute_microsecond", "minute_second", "modifies", "natural", "no_write_to_binlog",
   "nth_value", "ntile", "numeric", "on", "optimize", "option", "optionally", "out", "outer",
   "outfile", "over", "parallel", "partition", "percent_rank", "precision", "primary",
   "procedure", "purge", "qualify", "range", "rank", "read", "read_write", "reads", "real",
   "references", "release", "rename", "repeat", "replace", "require", "resignal", "restrict",
   "return", "revoke", "right", "row_number", "schema", "schemas", "second_microsecond",
   "sensitive", "separator", "session_user", "show", "signal", "smallint", "spatial",
   "specific", "sql", "sql_big_result", "sql_calc_found_rows", "sql_small_result",
   "sqlexception", "sqlstate", "sqlwarning", "ssl", "starting", "stored", "straight_join",
   "system", "system_user", "tablesample", "terminated", "then", "tinyblob", "tinyint",
   "tinytext", "trailing", "trigger", "undo", "unlock", "unsigned", "usage", "use", "user",
   "utc_date", "utc_time", "utc_timestamp", "varbinary", "varcharacter", "varying", "virtual",
   "when", "where", "while", "window", "write", "year_month", "zerofill"]

def SQLITE_RESERVED_WORDS : List String :=
  ["add", "alter", "case", "cast", "check", "commit", "constraint", "create",
   "current_catalog", "current_date", "current_role", "current_schema", "current_time",
   "current_timestamp", "current_user", "deferrable", "delete", "drop", "else", "exists",
   "foreign", "group", "having", "index", "insert", "into", "join", "localtime",
   "localtimestamp", "nothing", "on", "primary", "references", "returning", "session_user",
   "system_user", "then", "transaction", "user", "when", "where"]

def DUCKDB_RESERVED_WORDS : List String :=
  ["analyse", "analyze", "anti", "asof", "authorization", "both", "case", "cast", "check",
   "collation", "column", "concurrently", "constraint", "create", "cross", "current_catalog",
   "current_date", "current_role", "current_schema", "current_time", "current_timestamp",
   "current_user", "deferrable", "do", "else", "end", "foreign", "freeze", "full", "group",
   "having", "initially", "inner", "into", "join", "lateral", "leading", "left", "localtime",
   "localtimestamp", "natural", "on", "outer", "placing", "positional", "primary", "qualify",
   "references", "returning", "right", "semi", "session_user", "system_user", "tablesample",
   "then", "trailing", "user", "variadic", "verbose", "when", "where", "window"]

def SNOWFLAKE_RESERVED_WORDS : List String :=
  ["match_recognize", "qualify"] ++ RESERVED_WORDS

def LENIENT_RESERVED_WORDS : List String :=
  ["interval"] ++ RESERVED_WORDS

end keyword

open keyword

namespace FeatureSet

def ANSI : FeatureSet where
  byte_classes := STANDARD_BYTE_CLASSES
  binding_powers := .STANDARD
  set_operation_powers := .STANDARD
  pipe_operator := .StringConcat
  double_ampersand := .Unsupported
  keyword_operators := .Unsupported
  caret_operator := .Unsupported
  hash_bitwise_xor := false
  reserved_column_name := RESERVED_COLUMN_NAME
  reserved_words := RESERVED_WORDS
  identifier_quotes := [('"', '"')]
  select_syntax :=
    { union_by_name := false, intersect_all := true, except_all := true, from_first := false,
      explicit_table := true, parenthesized_query_operands := true }
  query_tail_syntax :=
    { fetch_first := true, limit_offset_comma := false, locking_clauses := false,
      key_lock_strengths := false, stacked_locking_clauses := false, leading_offset := true,
      limit_expressions := true, limit_percent := false, with_ties_requires_order_by := false,
      pipe_syntax := false, limit_by_clause := false, settings_clause := false,
      format_clause := false, for_xml_json_clause := false }
  grouping_syntax :=
    { order_by_using := false, order_by_all := false, grouping_sets := true }
  join_syntax :=
    { recursive_search_cycle := false, recursive_union_rejects_order_limit := false,
      recursive_using_key := false, stacked_join_qualifiers := true }
  table_factor_syntax :=
    { pivot := false, unpivot := false }
  table_expressions :=
    { table_json_path := false }
  mutation_syntax :=
    { data_modifying_ctes := false, merge := true }
  operator_syntax :=
    { operator_construct := false, containment_operators := false,
      json_arrow_operators := false, jsonb_operators := false, double_equals := false,
      integer_divide_slash := false, starts_with_operator := false,
      is_general_equality := false, truth_value_tests := true, null_safe_equals := false,
      lambda_expressions := false, bitwise_operators := false, quantified_comparisons := true,
      quantified_comparison_lists := false, quantified_arbitrary_operator := false,
      custom_operators := false, null_test_postfix := false, postfix_operators := false }
  predicate_syntax :=
    { is_distinct_from := true, like := true, ilike := false, similar_to := false,
      overlaps_period_predicate := false, unparenthesized_in_list := false,
      pattern_match_quantifier := false, between_symmetric := false, is_normalized := false,
      empty_in_list := false, null_test_two_word_postfix := false }
  call_syntax :=
    { named_argument := false, sqljson_expression_functions := false,
      xml_expression_functions := false }
  expression_syntax :=
    { typecast_operator := false, subscript := false, collate := false, at_time_zone := false,
      semi_structured_access := false, field_selection := false, field_wildcard := false,
      positional_column := false, array_constructor := false, multidim_array_literals := false,
      collection_literals := false }
  comment_syntax :=
    { line_comment_hash := false, line_comment_ends_at_carriage_return := false,
      nested_block_comments := true, versioned_comments := none,
      unterminated_block_comment_at_eof := false }
  string_literals :=
    { escape_strings := false, dollar_quoted_strings := false, national_strings := false,
      double_quoted_strings := false, backslash_escapes := false, unicode_strings := false,
      bit_string_literals := false, blob_literals := false, charset_introducers := false }
  numeric_literals :=
    { hex_integers := false, octal_integers := false, binary_integers := false,
      underscore_separators := false, radix_leading_underscore := false,
      reject_trailing_junk := false, money_literals := false }
  parameters :=
    { positional_dollar := false, anonymous_question := false, named_colon := false,
      named_at := false, named_dollar := false, numbered_question := false }
  identifier_syntax :=
    { non_ascii := .UnicodeAlphanumeric, dollar_in_identifiers := false,
      empty_quoted_identifiers := false }
  session_variables :=
    { user_variables := false, system_variables := false, variable_assignment := false }
  utility_syntax :=
    { stage_references := false, copy := false, copy_into := false }
  show_syntax :=
    { session_statements := true }

def POSTGRES : FeatureSet :=
  { ANSI with
    byte_classes := POSTGRES_BYTE_CLASSES
    binding_powers := .POSTGRES
    caret_operator := .Exponent
    hash_bitwise_xor := true
    query_tail_syntax :=
      { ANSI.query_tail_syntax with
        locking_clauses := true, key_lock_strengths := true, stacked_locking_clauses := true,
        with_ties_requires_order_by := true }
    grouping_syntax :=
      { ANSI.grouping_syntax with
        order_by_using := true }
    join_syntax :=
      { ANSI.join_syntax with
        recursive_search_cycle := true }
    mutation_syntax :=
      { ANSI.mutation_syntax with
        data_modifying_ctes := true }
    operator_syntax :=
      { ANSI.operator_syntax with
        operator_construct := true, containment_operators := true,
        json_arrow_operators := true, jsonb_operators := true, bitwise_operators := true,
        quantified_comparison_lists := true, quantified_arbitrary_operator := true,
        custom_operators := true, null_test_postfix := true }
    predicate_syntax :=
      { ANSI.predicate_syntax with
        ilike := true, similar_to := true, overlaps_period_predicate := true,
        pattern_match_quantifier := true, between_symmetric := true, is_normalized := true }
    call_syntax :=
      { ANSI.call_syntax with
        named_argument := true, sqljson_expression_functions := true,
        xml_expression_functions := true }
    expression_syntax :=
      { ANSI.expression_syntax with
        typecast_operator := true, subscript := true, collate := true, at_time_zone := true,
        field_selection := true, field_wildcard := true, array_constructor := true,
        multidim_array_literals := true }
    comment_syntax :=
      { ANSI.comment_syntax with
        line_comment_ends_at_carriage_return := true }
    string_literals :=
      { ANSI.string_literals with
        dollar_quoted_strings := true, escape_strings := true, unicode_strings := true,
        bit_string_literals := true }
    numeric_literals :=
      { ANSI.numeric_literals with
        hex_integers := true, octal_integers := true, binary_integers := true,
        underscore_separators := true, radix_leading_underscore := true,
        reject_trailing_junk := true }
    parameters :=
      { ANSI.parameters with
        positional_dollar := true }
    identifier_syntax :=
      { ANSI.identifier_syntax with
        non_ascii := .Any, dollar_in_identifiers := true }
    utility_syntax :=
      { ANSI.utility_syntax with
        copy := true } }

def QUILTDB : FeatureSet :=
  { ANSI with
    byte_classes := POSTGRES_BYTE_CLASSES
    binding_powers := .POSTGRES
    caret_operator := .Exponent
    hash_bitwise_xor := true
    reserved_column_name := QUILTDB_RESERVED_COLUMN_NAME
    reserved_words := QUILTDB_RESERVED_WORDS
    select_syntax :=
      { ANSI.select_syntax with
        intersect_all := false, except_all := false }
    query_tail_syntax :=
      { ANSI.query_tail_syntax with
        locking_clauses := true, key_lock_strengths := true, stacked_locking_clauses := true,
        with_ties_requires_order_by := true }
    grouping_syntax :=
      { ANSI.grouping_syntax with
        order_by_using := true }
    join_syntax :=
      { ANSI.join_syntax with
        recursive_search_cycle := true }
    mutation_syntax :=
      { ANSI.mutation_syntax with
        data_modifying_ctes := true }
    operator_syntax :=
      { ANSI.operator_syntax with
        operator_construct := true, containment_operators := true,
        json_arrow_operators := true, jsonb_operators := true, bitwise_operators := true,
        quantified_comparison_lists := true, quantified_arbitrary_operator := true,
        custom_operators := true, null_test_postfix := true }
    predicate_syntax :=
      { ANSI.predicate_syntax with
        is_distinct_from := false, ilike := true, similar_to := true,
        overlaps_period_predicate := true, pattern_match_quantifier := true,
        between_symmetric := true, is_normalized := true }
    call_syntax :=
      { ANSI.call_syntax with
        named_argument := true, sqljson_expression_functions := true,
        xml_expression_functions := true }
    expression_syntax :=
      { ANSI.expression_syntax with
        typecast_operator := true, subscript := true, collate := true, at_time_zone := true,
        field_selection := true, field_wildcard := true, array_constructor := true,
        multidim_array_literals := true, collection_literals := true }
    comment_syntax :=
      { ANSI.comment_syntax with
        line_comment_ends_at_carriage_return := true }
    string_literals :=
      { ANSI.string_literals with
        dollar_quoted_strings := true, escape_strings := true, unicode_strings := true,
        bit_string_literals := true }
    numeric_literals :=
      { ANSI.numeric_literals with
        hex_integers := true, octal_integers := true, binary_integers := true,
        underscore_separators := true, radix_leading_underscore := true,
        reject_trailing_junk := true }
    parameters :=
      { ANSI.parameters with
        positional_dollar := true }
    identifier_syntax :=
      { ANSI.identifier_syntax with
        non_ascii := .Any, dollar_in_identifiers := true }
    utility_syntax :=
      { ANSI.utility_syntax with
        copy := true } }

def MYSQL : FeatureSet :=
  { ANSI with
    byte_classes := MYSQL_BYTE_CLASSES
    binding_powers := .MYSQL
    pipe_operator := .LogicalOr
    double_ampersand := .LogicalAnd
    keyword_operators := .MySql
    caret_operator := .BitwiseXor
    reserved_column_name := MYSQL_RESERVED_COLUMN_NAME
    reserved_words := MYSQL_RESERVED_WORDS
    identifier_quotes := [('`', '`')]
    query_tail_syntax :=
      { ANSI.query_tail_syntax with
        fetch_first := false, limit_offset_comma := true, locking_clauses := true,
        leading_offset := false, limit_expressions := false }
    grouping_syntax :=
      { ANSI.grouping_syntax with
        grouping_sets := false }
    mutation_syntax :=
      { ANSI.mutation_syntax with
        merge := false }
    operator_syntax :=
      { ANSI.operator_syntax with
        null_safe_equals := true, bitwise_operators := true }
    comment_syntax :=
      { ANSI.comment_syntax with
        line_comment_hash := true, nested_block_comments := false,
        versioned_comments := some 80499 }
    string_literals :=
      { ANSI.string_literals with
        national_strings := true, double_quoted_strings := true, backslash_escapes := true,
        bit_string_literals := true, blob_literals := true, charset_introducers := true }
    numeric_literals :=
      { ANSI.numeric_literals with
        hex_integers := true, binary_integers := true }
    parameters :=
      { ANSI.parameters with
        anonymous_question := true }
    identifier_syntax :=
      { ANSI.identifier_syntax with
        non_ascii := .Any, dollar_in_identifiers := true }
    session_variables :=
      { ANSI.session_variables with
        user_variables := true, system_variables := true, variable_assignment := true } }

def SQLITE : FeatureSet :=
  { ANSI with
    byte_classes := SQLITE_BYTE_CLASSES
    binding_powers := .SQLITE
    keyword_operators := .Sqlite
    reserved_column_name := SQLITE_RESERVED_COLUMN_NAME
    reserved_words := SQLITE_RESERVED_WORDS
    identifier_quotes := [('"', '"'), ('`', '`'), ('[', ']')]
    select_syntax :=
      { ANSI.select_syntax with
        intersect_all := false, except_all := false, explicit_table := false,
        parenthesized_query_operands := false }
    query_tail_syntax :=
      { ANSI.query_tail_syntax with
        fetch_first := false, limit_offset_comma := true, leading_offset := false }
    grouping_syntax :=
      { ANSI.grouping_syntax with
        grouping_sets := false }
    join_syntax :=
      { ANSI.join_syntax with
        stacked_join_qualifiers := false }
    mutation_syntax :=
      { ANSI.mutation_syntax with
        merge := false }
    operator_syntax :=
      { ANSI.operator_syntax with
        json_arrow_operators := true, double_equals := true, is_general_equality := true,
        truth_value_tests := false, bitwise_operators := true, quantified_comparisons := false,
        null_test_postfix := true }
    predicate_syntax :=
      { ANSI.predicate_syntax with
        empty_in_list := true, null_test_two_word_postfix := true }
    expression_syntax :=
      { ANSI.expression_syntax with
        collate := true }
    comment_syntax :=
      { ANSI.comment_syntax with
        nested_block_comments := false, unterminated_block_comment_at_eof := true }
    string_literals :=
      { ANSI.string_literals with
        blob_literals := true }
    numeric_literals :=
      { ANSI.numeric_literals with
        hex_integers := true, underscore_separators := true, reject_trailing_junk := true }
    parameters :=
      { ANSI.parameters with
        named_dollar := true, numbered_question := true, anonymous_question := true,
        named_colon := true, named_at := true }
    identifier_syntax :=
      { ANSI.identifier_syntax with
        non_ascii := .Any, dollar_in_identifiers := true, empty_quoted_identifiers := true }
    show_syntax :=
      { session_statements := false } }

def DUCKDB : FeatureSet :=
  { ANSI with
    byte_classes := DUCKDB_BYTE_CLASSES
    binding_powers := .DUCKDB
    double_ampersand := .Overlaps
    keyword_operators := .DuckDb
    caret_operator := .Exponent
    reserved_column_name := DUCKDB_RESERVED_COLUMN_NAME
    reserved_words := DUCKDB_RESERVED_WORDS
    select_syntax :=
      { ANSI.select_syntax with
        union_by_name := true, from_first := true }
    query_tail_syntax :=
      { ANSI.query_tail_syntax with
        limit_percent := true }
    grouping_syntax :=
      { ANSI.grouping_syntax with
        order_by_using := true, order_by_all := true }
    join_syntax :=
      { ANSI.join_syntax with
        recursive_union_rejects_order_limit := true, recursive_using_key := true }
    table_factor_syntax :=
      { ANSI.table_factor_syntax with
        pivot := true, unpivot := true }
    operator_syntax :=
      { ANSI.operator_syntax with
        operator_construct := true, containment_operators := true,
        json_arrow_operators := true, double_equals := true, integer_divide_slash := true,
        starts_with_operator := true, lambda_expressions := true, bitwise_operators := true,
        quantified_comparison_lists := true, custom_operators := true,
        null_test_postfix := true, postfix_operators := true }
    predicate_syntax :=
      { ANSI.predicate_syntax with
        ilike := true, similar_to := true, unparenthesized_in_list := true,
        null_test_two_word_postfix := true }
    call_syntax :=
      { ANSI.call_syntax with
        named_argument := true }
    expression_syntax :=
      { ANSI.expression_syntax with
        typecast_operator := true, subscript := true, collate := true, at_time_zone := true,
        field_selection := true, positional_column := true, array_constructor := true,
        collection_literals := true }
    comment_syntax :=
      { ANSI.comment_syntax with
        line_comment_ends_at_carriage_return := true }
    string_literals :=
      { ANSI.string_literals with
        dollar_quoted_strings := true, escape_strings := true, unicode_strings := true,
        bit_string_literals := true }
    numeric_literals :=
      { ANSI.numeric_literals with
        hex_integers := true, octal_integers := true, binary_integers := true,
        underscore_separators := true }
    parameters :=
      { ANSI.parameters with
        positional_dollar := true, anonymous_question := true }
    identifier_syntax :=
      { ANSI.identifier_syntax with
        non_ascii := .Any, dollar_in_identifiers := true }
    utility_syntax :=
      { ANSI.utility_syntax with
        copy := true } }

def BIGQUERY : FeatureSet :=
  { ANSI with
    reserved_column_name := QUILTDB_RESERVED_COLUMN_NAME
    identifier_quotes := [('`', '`')]
    string_literals :=
      { ANSI.string_literals with
        double_quoted_strings := true } }

def HIVE : FeatureSet :=
  { ANSI with
    identifier_quotes := [('`', '`')]
    string_literals :=
      { ANSI.string_literals with
        double_quoted_strings := true } }

def CLICKHOUSE : FeatureSet :=
  { ANSI with
    identifier_quotes := [('"', '"'), ('`', '`')]
    query_tail_syntax :=
      { ANSI.query_tail_syntax with
        limit_by_clause := true, settings_clause := true, format_clause := true } }

def DATABRICKS : FeatureSet :=
  { ANSI with
    reserved_words := QUILTDB_RESERVED_WORDS
    identifier_quotes := [('"', '"'), ('`', '`')]
    grouping_syntax :=
      { ANSI.grouping_syntax with
        order_by_all := true }
    expression_syntax :=
      { ANSI.expression_syntax with
        semi_structured_access := true } }

def MSSQL : FeatureSet :=
  { ANSI with
    identifier_quotes := [('"', '"'), ('[', ']')]
    query_tail_syntax :=
      { ANSI.query_tail_syntax with
        for_xml_json_clause := true }
    string_literals :=
      { ANSI.string_literals with
        national_strings := true }
    numeric_literals :=
      { ANSI.numeric_literals with
        money_literals := true }
    parameters :=
      { ANSI.parameters with
        named_at := true } }

def SNOWFLAKE : FeatureSet :=
  { ANSI with
    reserved_column_name := QUILTDB_RESERVED_COLUMN_NAME
    reserved_words := SNOWFLAKE_RESERVED_WORDS
    table_expressions := { table_json_path := true }
    expression_syntax :=
      { ANSI.expression_syntax with
        semi_structured_access := true }
    utility_syntax :=
      { ANSI.utility_syntax with
        stage_references := true, copy_into := true } }

def REDSHIFT : FeatureSet :=
  { ANSI with
    table_expressions := { table_json_path := true } }

def LENIENT : FeatureSet :=
  { ANSI with
    binding_powers := .POSTGRES
    double_ampersand := .LogicalAnd
    keyword_operators := .MySql
    caret_operator := .BitwiseXor
    reserved_column_name := LENIENT_RESERVED_COLUMN_NAME
    reserved_words := LENIENT_RESERVED_WORDS
    identifier_quotes := [('"', '"'), ('`', '`'), ('[', ']')]
    select_syntax :=
      { ANSI.select_syntax with
        union_by_name := true, from_first := true }
    query_tail_syntax :=
      { ANSI.query_tail_syntax with
        limit_offset_comma := true, locking_clauses := true, key_lock_strengths := true,
        stacked_locking_clauses := true, limit_percent := true, limit_by_clause := true,
        settings_clause := true, format_clause := true, for_xml_json_clause := true }
    grouping_syntax :=
      { ANSI.grouping_syntax with
        order_by_using := true, order_by_all := true }
    join_syntax :=
      { ANSI.join_syntax with
        recursive_search_cycle := true, recursive_using_key := true }
    table_factor_syntax :=
      { ANSI.table_factor_syntax with
        pivot := true, unpivot := true }
    mutation_syntax :=
      { ANSI.mutation_syntax with
        data_modifying_ctes := true }
    operator_syntax :=
      { ANSI.operator_syntax with
        operator_construct := true, double_equals := true, integer_divide_slash := true,
        is_general_equality := true, null_safe_equals := true, bitwise_operators := true,
        quantified_comparison_lists := true, quantified_arbitrary_operator := true,
        null_test_postfix := true, postfix_operators := true }
    predicate_syntax :=
      { ANSI.predicate_syntax with
        ilike := true, similar_to := true, overlaps_period_predicate := true,
        unparenthesized_in_list := true, pattern_match_quantifier := true,
        between_symmetric := true, is_normalized := true, empty_in_list := true,
        null_test_two_word_postfix := true }
    call_syntax :=
      { ANSI.call_syntax with
        named_argument := true, sqljson_expression_functions := true,
        xml_expression_functions := true }
    expression_syntax :=
      { ANSI.expression_syntax with
        typecast_operator := true, collate := true, at_time_zone := true,
        field_selection := true, field_wildcard := true }
    comment_syntax :=
      { ANSI.comment_syntax with
        line_comment_hash := true, versioned_comments := some (2 ^ 32 - 1),
        unterminated_block_comment_at_eof := true }
    string_literals :=
      { ANSI.string_literals with
        dollar_quoted_strings := true, escape_strings := true, national_strings := true,
        backslash_escapes := true, unicode_strings := true, bit_string_literals := true,
        charset_introducers := true }
    numeric_literals :=
      { ANSI.numeric_literals with
        hex_integers := true, octal_integers := true, binary_integers := true,
        underscore_separators := true, radix_leading_underscore := true }
    parameters :=
      { ANSI.parameters with
        positional_dollar := true, numbered_question := true, anonymous_question := true,
        named_colon := true, named_at := true }
    identifier_syntax :=
      { ANSI.identifier_syntax with
        non_ascii := .Any, dollar_in_identifiers := true, empty_quoted_identifiers := true }
    session_variables :=
      { ANSI.session_variables with
        system_variables := true }
    utility_syntax :=
      { ANSI.utility_syntax with
        copy := true, copy_into := true } }

end FeatureSet

/-- The dialects built into the crate. -/
inductive BuiltinDialect
  | Ansi | Postgres | QuiltDb | MySql | Sqlite | DuckDb | BigQuery | Hive | ClickHouse
  | Databricks | Mssql | Snowflake | Redshift | Lenient
  deriving DecidableEq

def BuiltinDialect.features : BuiltinDialect → FeatureSet
  | .Ansi => .ANSI
  | .Postgres => .POSTGRES
  | .QuiltDb => .QUILTDB
  | .MySql => .MYSQL
  | .Sqlite => .SQLITE
  | .DuckDb => .DUCKDB
  | .BigQuery => .BIGQUERY
  | .Hive => .HIVE
  | .ClickHouse => .CLICKHOUSE
  | .Databricks => .DATABRICKS
  | .Mssql => .MSSQL
  | .Snowflake => .SNOWFLAKE
  | .Redshift => .REDSHIFT
  | .Lenient => .LENIENT

end squonk.dialect
