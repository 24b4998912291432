import HtmlTemplate.Source.Position
import HtmlTemplate.Source.Collection
import HtmlTemplate.Text.CharRange
import HtmlTemplate.Text.Unprintable
import HtmlTemplate.Text.GraphemeExtend
import HtmlTemplate.Text.Quoted
import HtmlTemplate.Text.Entity
import HtmlTemplate.Token.Basic
import HtmlTemplate.Token.Piece
import HtmlTemplate.Token.Lexeme
import HtmlTemplate.Token.Scan
import HtmlTemplate.Tree.Basic
import HtmlTemplate.Tree.Display
import HtmlTemplate.Tree.Flatten
import HtmlTemplate.Tree.Tag
import HtmlTemplate.Definition.Basic
import HtmlTemplate.Definition.Reader
import HtmlTemplate.Definition.OfTokens
import HtmlTemplate.Number.Basic
import HtmlTemplate.Number.Rounding
import HtmlTemplate.Number.Shortest
import HtmlTemplate.Number.Display
import HtmlTemplate.Number.Scale
import HtmlTemplate.Json.Basic
import HtmlTemplate.Json.Numeral
import HtmlTemplate.Json.Read
import HtmlTemplate.Value.Basic
import HtmlTemplate.Value.Equality
import HtmlTemplate.Value.OfJson
import HtmlTemplate.Render.Environment
import HtmlTemplate.Render.Registry
import HtmlTemplate.Render.Error
import HtmlTemplate.Render.Action
import HtmlTemplate.Render.Evaluate
import HtmlTemplate.Diagnostic
import HtmlTemplate.Engine
import HtmlTemplate.Host.Resolvers
import HtmlTemplate.Host.Functions
import HtmlTemplate.Command.Arguments
import HtmlTemplate.Command.FileTree
import HtmlTemplate.Command.Run
import HtmlTemplate.Main
import HtmlTemplate.Proofs.Render.Flattened
import HtmlTemplate.Proofs.Session.Basic
import HtmlTemplate.Proofs.Session.Optimization
import HtmlTemplate.Proofs.Grammar.Basic
import HtmlTemplate.Proofs.Grammar.Readers
import HtmlTemplate.Proofs.Grammar.Blocks
import HtmlTemplate.Proofs.Grammar.Unique
import HtmlTemplate.Proofs.Grammar.Exact
import HtmlTemplate.Proofs.Grammar.Goals
import HtmlTemplate.Proofs.Grammar.Tracks
import HtmlTemplate.Proofs.Grammar.Viable
import HtmlTemplate.Proofs.Source.Place
import HtmlTemplate.Proofs.Blame.Spot
import HtmlTemplate.Proofs.Blame.Spelling
import HtmlTemplate.Proofs.Blame.Failure
import HtmlTemplate.Proofs.Session.Completed
import HtmlTemplate.Proofs.Blame.Diagnosis
import HtmlTemplate.Proofs.Token.Cut
import HtmlTemplate.Proofs.Session.FailedCompile
import HtmlTemplate.Proofs.Render.Agreement
import HtmlTemplate.Proofs.Render.Delimiters
import HtmlTemplate.Proofs.Render.FlatScope
import HtmlTemplate.Proofs.Token.Lossless
import HtmlTemplate.Proofs.Alike.Readers
import HtmlTemplate.Proofs.Alike.Renders
import HtmlTemplate.Proofs.Alike.Compiles
import HtmlTemplate.Proofs.Session.Order
import HtmlTemplate.Proofs.Session.LastWrite
import HtmlTemplate.Proofs.Session.Bindings
import HtmlTemplate.Proofs.Source.Joined
import HtmlTemplate.Proofs.Session.Joined
import HtmlTemplate.Proofs.Render.Writes
import HtmlTemplate.Proofs.Grammar.Safe
import HtmlTemplate.Proofs.Session.SafeSources
import HtmlTemplate.Proofs.Render.Following
import HtmlTemplate.Proofs.Render.Monotone
import HtmlTemplate.Proofs.Render.FreeNames
import HtmlTemplate.Proofs.Render.Nesting
import HtmlTemplate.Proofs.Session.Recursion
import HtmlTemplate.Proofs.Session.Validity
import HtmlTemplate.Proofs.Render.OtherTable
import HtmlTemplate.Proofs.Render.Leftover
import HtmlTemplate.Proofs.Command.Files
import HtmlTemplate.Proofs.Command.Check
import HtmlTemplate.Proofs.Command.AllOrNothing
import HtmlTemplate.Proofs.Render.Substitution
import HtmlTemplate.Proofs.Tree.Subtree
import HtmlTemplate.Proofs.Tree.NormalForm
import HtmlTemplate.Proofs.Token.Paths
import HtmlTemplate.Proofs.Tree.WellFormed
import HtmlTemplate.Proofs.Grammar.Compiled
import HtmlTemplate.Proofs.Render.InPlace
import HtmlTemplate.Proofs.Session.CompiledTrees
import HtmlTemplate.Proofs.Token.References
import HtmlTemplate.Proofs.Token.Faults
import HtmlTemplate.Proofs.Blame.Malformed
import HtmlTemplate.Proofs.Token.Quoting
import HtmlTemplate.Proofs.Session.Verbatim
import HtmlTemplate.Proofs.Render.Composition
import HtmlTemplate.Proofs.Grammar.Composed
import HtmlTemplate.Proofs.Grammar.InTurn
import HtmlTemplate.Proofs.Grammar.CutShort
import HtmlTemplate.Proofs.Token.Apart
import HtmlTemplate.Proofs.Token.Displayed
import HtmlTemplate.Proofs.Token.Layout
import HtmlTemplate.Proofs.Grammar.Comments
import HtmlTemplate.Proofs.Session.Reformatted
import HtmlTemplate.Proofs.Render.EqualValues
import HtmlTemplate.Proofs.Text.Numeral
import HtmlTemplate.Proofs.Value.OfJson
import HtmlTemplate.Proofs.Render.Escaped
import HtmlTemplate.Proofs.Number.Value
import HtmlTemplate.Proofs.Number.Nearest
import HtmlTemplate.Proofs.Number.Rounding
import HtmlTemplate.Proofs.Number.Integers
import HtmlTemplate.Proofs.Blame.SamePlace
import HtmlTemplate.Proofs.Token.NestedComments
import HtmlTemplate.Proofs.Grammar.Closed
import HtmlTemplate.Proofs.Grammar.Progress
import HtmlTemplate.Proofs.Text.Quoted
import HtmlTemplate.Proofs.Tree.Displayed
