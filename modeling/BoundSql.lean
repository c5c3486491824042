import BoundSql.Text.CharClass
import BoundSql.Text.Position
import BoundSql.Number.Width
import BoundSql.Number.Shortest
import BoundSql.Number.Reading
import BoundSql.Dialect
import BoundSql.Token.Basic
import BoundSql.Token.Placeholder
import BoundSql.Token.Lexer
import BoundSql.Token.Block
import BoundSql.Json.Reader
import BoundSql.Tree.Expr
import BoundSql.Tree.Statement
import BoundSql.Grammar.Statement
import BoundSql.Calendar.Reading
import BoundSql.Error
import BoundSql.Tree.Rebuild
import BoundSql.Tree.Check
import BoundSql.Script.Piece
import BoundSql.Settings
import BoundSql.Script.Statement
import BoundSql.Tree.Encoding
import BoundSql.Render.Name
import BoundSql.Render.Phrase
import BoundSql.Render.Param
import BoundSql.Render.Expression
import BoundSql.Render.Statement
import BoundSql.Render.NullTest
import BoundSql.Tree.Equality
import BoundSql.CommandLine.Arguments
import BoundSql.CommandLine.Invocation
import BoundSql.CommandLine.Run
import BoundSql.Main
import BoundSql.Proofs.Grammar.Expression
import BoundSql.Proofs.Grammar.Query
import BoundSql.Proofs.Render.Gives
import BoundSql.Proofs.Render.Name
import BoundSql.Proofs.Render.Tidy
import BoundSql.Proofs.RoundTrip.Expression
import BoundSql.Proofs.RoundTrip.Integer
import BoundSql.Proofs.RoundTrip.Operation
import BoundSql.Proofs.RoundTrip.SetOperators
import BoundSql.Proofs.RoundTrip.Whole
import BoundSql.Proofs.Token.Gap
import BoundSql.Proofs.Token.Tiling
import BoundSql.Proofs.Token.Cut
import BoundSql.Proofs.Token.Front
import BoundSql.Proofs.Token.Terminated
import BoundSql.Proofs.Token.Reread
import BoundSql.Proofs.Token.Block
import BoundSql.Proofs.Script.Piece
import BoundSql.Proofs.Script.Terminator
import BoundSql.Proofs.Grammar.Invariance
import BoundSql.Proofs.Script.Shift
import BoundSql.Proofs.Script.Blanks
import BoundSql.Proofs.Script.Loop
import BoundSql.Proofs.Script.DelimiterLine
import BoundSql.Proofs.Script.Delimited
import BoundSql.Proofs.Script.Comments
import BoundSql.Proofs.Script.Limits
import BoundSql.Proofs.RoundTrip.Branches
import BoundSql.Proofs.RoundTrip.Statement
import BoundSql.Proofs.Binding.Alike
import BoundSql.Proofs.Binding.Anonymous
import BoundSql.Proofs.Binding.Numbered
import BoundSql.Proofs.Binding.Expression
import BoundSql.Proofs.Binding.TwoTexts
import BoundSql.Proofs.Token.Lexeme
import BoundSql.Proofs.Render.NullTest
import BoundSql.Proofs.Grammar.Collected
import BoundSql.Proofs.Grammar.Formed
import BoundSql.Proofs.Param.Key
import BoundSql.Proofs.Token.Placeholder
import BoundSql.Proofs.Param.Notation
import BoundSql.Proofs.Render.Kept
import BoundSql.Proofs.Render.Usable
import BoundSql.Proofs.Script.Stored
import BoundSql.Proofs.Json.ReadBack
import BoundSql.Proofs.Tree.Encoding
import BoundSql.Proofs.Grammar.Follows
import BoundSql.Proofs.Grammar.Marking
import BoundSql.Proofs.Grammar.FollowedBody
import BoundSql.Proofs.Render.Tells
import BoundSql.Proofs.Render.Told
import BoundSql.Proofs.Render.Transaction
import BoundSql.Proofs.Render.Statement
import BoundSql.Proofs.Render.Rendered
import BoundSql.Proofs.Render.Layout
import BoundSql.Proofs.Tree.Order
import BoundSql.Proofs.Render.Delimited
import BoundSql.Proofs.Render.Joins
import BoundSql.Proofs.Render.Declared
import BoundSql.Proofs.Tree.Branches
import BoundSql.Proofs.Script.Length
import BoundSql.Proofs.Grammar.Depth
import BoundSql.Proofs.Script.Cutout
import BoundSql.Proofs.Render.Verbatim
import BoundSql.Proofs.Render.Tests
import BoundSql.Proofs.Render.Uncompared
import BoundSql.Proofs.Binding.Unbound
import BoundSql.Proofs.Render.TestedText
import BoundSql.Proofs.Number.Shortest
import BoundSql.Proofs.Number.Text
import BoundSql.Proofs.RoundTrip.Number
import BoundSql.Proofs.Script.Single
import BoundSql.Proofs.Script.Attached
import BoundSql.Proofs.Token.Seam
import BoundSql.Proofs.Script.Sites
import BoundSql.Proofs.Render.Inlined
import BoundSql.Proofs.Render.PartName
import BoundSql.Proofs.Render.DottedWord
import BoundSql.Proofs.Render.Dotted
import BoundSql.Proofs.RoundTrip.Chain
import BoundSql.Proofs.Render.Gating
import BoundSql.Proofs.Tree.Checked
import BoundSql.Proofs.Tree.Hidden
import BoundSql.Proofs.Render.Records
import BoundSql.Proofs.Render.Sound
import BoundSql.Proofs.Tree.Children
import BoundSql.Proofs.Tree.Address
import BoundSql.Proofs.Tree.Levels
import BoundSql.Proofs.Tree.Refill
import BoundSql.Proofs.Tree.Walk
import BoundSql.Proofs.Grammar.KeyMarking
import BoundSql.Proofs.Tree.Visited
import BoundSql.Proofs.Script.Visited
import BoundSql.Proofs.RoundTrip.DataType
import BoundSql.Proofs.Script.Split
import BoundSql.Proofs.Param.Blob
