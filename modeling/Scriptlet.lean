import Scriptlet.CommandLine.Command
import Scriptlet.CommandLine.Dialogue
import Scriptlet.Eval.Arithmetic
import Scriptlet.Eval.Builtins
import Scriptlet.Eval.Error
import Scriptlet.Eval.Evaluator
import Scriptlet.Eval.Run
import Scriptlet.Eval.Sequence
import Scriptlet.Eval.Store
import Scriptlet.Grammar.Fault
import Scriptlet.Grammar.Parse
import Scriptlet.Grammar.Rule
import Scriptlet.Grammar.Rules
import Scriptlet.Grammar.State
import Scriptlet.Grammar.Stream
import Scriptlet.Json.Basic
import Scriptlet.Numeral.Decimal
import Scriptlet.Numeral.Integer
import Scriptlet.Numeral.Reading
import Scriptlet.Numeral.Remainder
import Scriptlet.Numeral.Shortest
import Scriptlet.Report.Basic
import Scriptlet.Report.Snippet
import Scriptlet.Script.Basic
import Scriptlet.Script.Failure
import Scriptlet.Session
import Scriptlet.Source.Lines
import Scriptlet.Source.Span
import Scriptlet.Syntax.Layout
import Scriptlet.Syntax.Operator
import Scriptlet.Syntax.Outline
import Scriptlet.Syntax.Render
import Scriptlet.Syntax.Tree
import Scriptlet.Text.Classes
import Scriptlet.Text.Escaped
import Scriptlet.Text.Quoted
import Scriptlet.Text.Split
import Scriptlet.Text.Utf8
import Scriptlet.Text.Width
import Scriptlet.Token.Basic
import Scriptlet.Token.Lexer
import Scriptlet.Token.Reader
import Scriptlet.Value.Basic
import Scriptlet.Value.Builtin
import Scriptlet.Value.Equality
import Scriptlet.Value.Pairs
import Scriptlet.Value.Text
import Scriptlet.Main
import Scriptlet.Proofs.Grammar.Progress
import Scriptlet.Proofs.Grammar.Settled
import Scriptlet.Proofs.Grammar.Simulation
import Scriptlet.Proofs.Grammar.Recovery
import Scriptlet.Proofs.Grammar.Ending
import Scriptlet.Proofs.Value.Parts
import Scriptlet.Proofs.Eval.Answers
import Scriptlet.Proofs.Eval.Within
import Scriptlet.Proofs.Eval.Frames
import Scriptlet.Proofs.Eval.Footprint
import Scriptlet.Proofs.Eval.Proper
import Scriptlet.Proofs.Grammar.Takes
import Scriptlet.Proofs.Grammar.Written
import Scriptlet.Proofs.Grammar.Operands
import Scriptlet.Proofs.Syntax.Normal
import Scriptlet.Proofs.Token.Spelling
import Scriptlet.Proofs.Token.Tiling
import Scriptlet.Proofs.Syntax.Nodes
import Scriptlet.Proofs.Grammar.Placed
import Scriptlet.Proofs.Syntax.Words
import Scriptlet.Proofs.Grammar.Spoken
import Scriptlet.Proofs.Grammar.Spelled
import Scriptlet.Proofs.Grammar.Kept
import Scriptlet.Proofs.RoundTrip
import Scriptlet.Proofs.Value.Normal
import Scriptlet.Proofs.Eval.NormalAnswers
import Scriptlet.Proofs.Eval.Normal
import Scriptlet.Proofs.Value.Listing
import Scriptlet.Proofs.Token.Joined
import Scriptlet.Proofs.Grammar.Carried
import Scriptlet.Proofs.Eval.Joined
import Scriptlet.Proofs.Eval.Memory
import Scriptlet.Proofs.Eval.Moments
import Scriptlet.Proofs.Text.Utf8
import Scriptlet.Proofs.Token.Drawn
import Scriptlet.Proofs.Grammar.Streamed
import Scriptlet.Proofs.Token.Gaps
import Scriptlet.Proofs.Grammar.Blocks
import Scriptlet.Proofs.Syntax.Rendered
import Scriptlet.Proofs.Grammar.Rendered
import Scriptlet.Proofs.Eval.Exact
import Scriptlet.Proofs.Eval.Rebinding
import Scriptlet.Proofs.Eval.Sequences
import Scriptlet.Proofs.Token.BlankLines
import Scriptlet.Proofs.Token.Slices
import Scriptlet.Proofs.Eval.Hashes
import Scriptlet.Proofs.Eval.Sameness
import Scriptlet.Proofs.Eval.Pieces
import Scriptlet.Proofs.Grammar.Padded
import Scriptlet.Proofs.Grammar.Faults
import Scriptlet.Proofs.Grammar.Parens
import Scriptlet.Proofs.Numeral.Integer
import Scriptlet.Proofs.Numeral.Separators
import Scriptlet.Proofs.Numeral.Literal
import Scriptlet.Proofs.Numeral.Shortest
import Scriptlet.Proofs.Numeral.Printed
import Scriptlet.Proofs.Numeral.Magnitude
import Scriptlet.Proofs.Json.Compact
import Scriptlet.Proofs.Grammar.Grounds
import Scriptlet.Proofs.Syntax.Marked
import Scriptlet.Proofs.Syntax.Writing
import Scriptlet.Proofs.Syntax.Lines
import Scriptlet.Proofs.Syntax.Outlined
