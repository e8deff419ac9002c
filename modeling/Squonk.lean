import Squonk.Climbing.Grouping
import Squonk.Climbing.Unambiguous
import Squonk.Document.Validate
import Squonk.Parser.Expr.Refines
import Squonk.Parser.Query.Operand
import Squonk.Format.Layout
import Squonk.Render.Minimal
import Squonk.Tokenizer.Spelling
import Squonk.Document.Complete
import Squonk.Document.RoundTrip
import Squonk.Climbing.Turns
import Squonk.Parser.Expr.Chain.Grouped
import Squonk.Parser.NodeId.StringFuncs
import Squonk.Parser.Expr.Depth
import Squonk.Parser.Method.Agreement
import Squonk.Parser.Method.Frame
import Squonk.Parser.Method.Limit
import Squonk.Parser.Method.Marks
import Squonk.Parser.Method.Recovery
import Squonk.Parser.Method.Nesting
import Squonk.Tokenizer.Lossless
import Squonk.Parser.TokenStream
import Squonk.Interner.Sound
import Squonk.Tokenizer.Contention
import Squonk.Ast.Literal.EscapeCheck
import Squonk.Ast.Literal.EscapeValid
import Squonk.Ast.Literal.Number
import Squonk.Ast.Literal.NumberExact
import Squonk.Tokenizer.DollarQuote
import Squonk.Tokenizer.NumberGrammar
import Squonk.Tokenizer.NumberRule
import Squonk.Parser.Method.Deepen
import Squonk.Parser.Method.Postfix
import Squonk.Ast.Literal.StringText
import Squonk.Ast.Literal.Temporal
import Squonk.Parser.Temporal
import Squonk.Parser.Temporal.Placed
import Squonk.Parser.Temporal.Value
import Squonk.SerdeDepth.Document
import Squonk.Parser.Body.Rules
import Squonk.Render.RowPattern.Fused
import Squonk.Parser.Name.RoundTrip
import Squonk.Parser.Restrict.Climb
import Squonk.Parser.SideIndex
import Squonk.Parser.CheckGate
import Squonk.Parser.Clause.Charset
import Squonk.Parser.Clause.BareAlias
import Squonk.Parser.Clause.ListEnd
import Squonk.Parser.Clause.AccessControl.Dual
import Squonk.Parser.Clause.Session.RoundTrip
import Squonk.Format.Comments
import Squonk.Format.Comments.Attached
import Squonk.Format.Comments.Nearest
