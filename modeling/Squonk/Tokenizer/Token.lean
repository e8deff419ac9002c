import Squonk.Ast.Operator
import Squonk.Letters.Basic

/-!
# Tokens

What the tokenizer hands to the parser. A keyword is matched without regard to case, so its
token carries the keyword and no text; every other token carries what the parser reads of it.
-/

open squonk.ast

namespace squonk.tokenizer

inductive Keyword
  -- operators, predicates and the words that may stand as operands
  | And | Or | Not | Xor | Div | Mod | Rlike | Regexp | Glob | Match | Is | Isnull | Notnull
  | Distinct | From | Null | True | False | Unknown | Json | Document | Normalized
  | Nfc | Nfd | Nfkc | Nfkd | In | Between | Symmetric | Asymmetric | Like | Ilike | Similar
  | To | Escape | Overlaps | Any | All | Some | Operator | Collate | At | Time | Zone | Prior
  | Scalar | Value | Object | Array | With | Without | Unique | Keys | Lambda
  -- queries
  | Select | Table | Values | Recursive | As | Materialized | Using | Key | Search | Breadth
  | Depth | First | By | Set | Cycle | Default | Order | Asc | Desc | Nulls | Last | Limit
  | Offset | Percent | Fetch | Next | Row | Rows | Only | Ties | For | Update | Share | No | Of
  | Nowait | Skip | Locked | Lock | Mode | Union | Intersect | Except | Name | Pivot | Unpivot
  -- words that only their position makes a clause
  | Settings | Format | Xml | Raw | Auto | Explicit | Path | Elements | Xsinil | Absent
  | Binary | Base64 | Type | Root | IncludeNullValues | WithoutArrayWrapper
  -- types
  | Struct | Map | Nullable | Int | Integer | Varchar
  deriving DecidableEq

namespace Keyword

/-- The keyword as it is listed, in lower case. -/
def as_str : Keyword → String
  | .And => "and" | .Or => "or" | .Not => "not" | .Xor => "xor" | .Div => "div" | .Mod => "mod"
  | .Rlike => "rlike" | .Regexp => "regexp" | .Glob => "glob" | .Match => "match" | .Is => "is"
  | .Isnull => "isnull" | .Notnull => "notnull" | .Distinct => "distinct" | .From => "from"
  | .Null => "null" | .True => "true" | .False => "false" | .Unknown => "unknown"
  | .Json => "json" | .Document => "document" | .Normalized => "normalized" | .Nfc => "nfc"
  | .Nfd => "nfd" | .Nfkc => "nfkc" | .Nfkd => "nfkd" | .In => "in" | .Between => "between"
  | .Symmetric => "symmetric" | .Asymmetric => "asymmetric" | .Like => "like"
  | .Ilike => "ilike" | .Similar => "similar" | .To => "to" | .Escape => "escape"
  | .Overlaps => "overlaps" | .Any => "any" | .All => "all" | .Some => "some"
  | .Operator => "operator" | .Collate => "collate" | .At => "at" | .Time => "time"
  | .Zone => "zone" | .Prior => "prior" | .Scalar => "scalar" | .Value => "value"
  | .Object => "object" | .Array => "array" | .With => "with" | .Without => "without"
  | .Unique => "unique" | .Keys => "keys" | .Lambda => "lambda" | .Select => "select"
  | .Table => "table" | .Values => "values" | .Recursive => "recursive" | .As => "as"
  | .Materialized => "materialized" | .Using => "using" | .Key => "key" | .Search => "search"
  | .Breadth => "breadth" | .Depth => "depth" | .First => "first" | .By => "by" | .Set => "set"
  | .Cycle => "cycle" | .Default => "default" | .Order => "order" | .Asc => "asc"
  | .Desc => "desc" | .Nulls => "nulls" | .Last => "last" | .Limit => "limit"
  | .Offset => "offset" | .Percent => "percent" | .Fetch => "fetch" | .Next => "next"
  | .Row => "row" | .Rows => "rows" | .Only => "only" | .Ties => "ties" | .For => "for"
  | .Update => "update" | .Share => "share" | .No => "no" | .Of => "of" | .Nowait => "nowait"
  | .Skip => "skip" | .Locked => "locked" | .Lock => "lock" | .Mode => "mode"
  | .Union => "union" | .Intersect => "intersect" | .Except => "except" | .Name => "name"
  | .Pivot => "pivot" | .Unpivot => "unpivot" | .Settings => "settings" | .Format => "format"
  | .Xml => "xml" | .Raw => "raw" | .Auto => "auto" | .Explicit => "explicit" | .Path => "path"
  | .Elements => "elements" | .Xsinil => "xsinil" | .Absent => "absent" | .Binary => "binary"
  | .Base64 => "base64" | .Type => "type" | .Root => "root"
  | .IncludeNullValues => "include_null_values"
  | .WithoutArrayWrapper => "without_array_wrapper" | .Struct => "struct" | .Map => "map"
  | .Nullable => "nullable" | .Int => "int" | .Integer => "integer" | .Varchar => "varchar"

def all : List Keyword :=
  [.And, .Or, .Not, .Xor, .Div, .Mod, .Rlike, .Regexp, .Glob, .Match, .Is, .Isnull, .Notnull,
   .Distinct, .From, .Null, .True, .False, .Unknown, .Json, .Document, .Normalized, .Nfc, .Nfd,
   .Nfkc, .Nfkd, .In, .Between, .Symmetric, .Asymmetric, .Like, .Ilike, .Similar, .To, .Escape,
   .Overlaps, .Any, .All, .Some, .Operator, .Collate, .At, .Time, .Zone, .Prior, .Scalar,
   .Value, .Object, .Array, .With, .Without, .Unique, .Keys, .Lambda, .Select, .Table, .Values,
   .Recursive, .As, .Materialized, .Using, .Key, .Search, .Breadth, .Depth, .First, .By, .Set,
   .Cycle, .Default, .Order, .Asc, .Desc, .Nulls, .Last, .Limit, .Offset, .Percent, .Fetch,
   .Next, .Row, .Rows, .Only, .Ties, .For, .Update, .Share, .No, .Of, .Nowait, .Skip, .Locked,
   .Lock, .Mode, .Union, .Intersect, .Except, .Name, .Pivot, .Unpivot, .Settings, .Format,
   .Xml, .Raw, .Auto, .Explicit, .Path, .Elements, .Xsinil, .Absent, .Binary, .Base64, .Type,
   .Root, .IncludeNullValues, .WithoutArrayWrapper, .Struct, .Map, .Nullable, .Int, .Integer,
   .Varchar]

theorem mem_all (k : Keyword) : k ∈ all := by
  have hplace : all[k.ctorIdx]? = some k := by
    cases k <;> rfl
  exact List.mem_of_getElem? hplace

set_option maxRecDepth 8000 in
/-- The characters of the keywords, read off the literals. -/
def letters : {words : List (List Char) // letters.Letters (all.map as_str) words} := by
  apply Subtype.mk
  simp only [all, List.map_cons, List.map_nil]
  repeat apply letters.Letters.cons rfl
  exact .nil

theorem mem_letters (k : Keyword) : k.as_str.toList ∈ letters.val := by
  rw [← letters.property.map_toList, List.map_map]
  exact List.mem_map_of_mem (mem_all k)

end Keyword

inductive Operator
  | Plus | Minus | Star | Slash | SlashSlash | Percent
  | Eq | EqEq | Lt | LtEq | Gt | GtEq
  | NotEq (spelling : NotEqSpelling)
  | LtEqGt | Concat | AmpAmp | Bang | Pipe | Amp | Caret | CaretAt | Tilde
  | ShiftLeft | ShiftRight | Hash | Arrow | ColonEquals | AtGt | LtAt | MinusGt | MinusGtGt
  | PipeArrow | Question | QuestionPipe | QuestionAmp | AtQuestion | AtAt
  | HashGt | HashGtGt | HashMinus
  | Custom (text : List Char)
  deriving DecidableEq

inductive Punctuation
  | LParen | RParen | Comma | Semicolon | Dot | LBracket | RBracket | LBrace | RBrace
  | Colon | DoubleColon | At
  deriving DecidableEq

inductive Token
  | word (text : List Char)
  | quoted_ident (text : List Char)
  | keyword (keyword : Keyword)
  | number (text : List Char)
  | string (text : List Char)
  | parameter (text : List Char)
  | operator (op : Operator)
  | punctuation (punct : Punctuation)
  deriving DecidableEq

namespace Token

@[match_pattern] abbrev lparen : Token := punctuation .LParen

@[match_pattern] abbrev rparen : Token := punctuation .RParen

@[match_pattern] abbrev comma : Token := punctuation .Comma

end Token

end squonk.tokenizer
