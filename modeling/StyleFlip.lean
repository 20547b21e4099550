import StyleFlip.Text.Basic
import StyleFlip.Text.Blank
import StyleFlip.Span
import StyleFlip.Token.Basic
import StyleFlip.Token.Scan
import StyleFlip.Token.Lexer
import StyleFlip.Direction
import StyleFlip.Value.Basic
import StyleFlip.Selector.Basic
import StyleFlip.Body.Basic
import StyleFlip.Sheet.Basic
import StyleFlip.Token.Split
import StyleFlip.Outline.Basic
import StyleFlip.Outline.Reader
import StyleFlip.Value.Reader
import StyleFlip.Selector.Reader
import StyleFlip.Body.Reader
import StyleFlip.Sheet.Reader
import StyleFlip.Text.Words
import StyleFlip.Text.Break
import StyleFlip.Flip.Table
import StyleFlip.Flip.Edit
import StyleFlip.Flip.Shorthand
import StyleFlip.Flip.Value
import StyleFlip.Flip.Selector
import StyleFlip.Marking
import StyleFlip.Diagnostic
import StyleFlip.Flip.Options
import StyleFlip.Flip.Declaration
import StyleFlip.Flip.Rule
import StyleFlip.Flip.Sheet
import StyleFlip.Clean
import StyleFlip.Config.Basic
import StyleFlip.Transform
import StyleFlip.Session
import StyleFlip.Event
import StyleFlip.Decimal.Shortest
import StyleFlip.Text.Printable
import StyleFlip.Text.Quoted
import StyleFlip.Json.Basic
import StyleFlip.Json.Reader
import StyleFlip.Json.Writer
import StyleFlip.Config.Reader
import StyleFlip.Command.Arguments
import StyleFlip.Command.Files
import StyleFlip.Command.Run
import StyleFlip.Main
import StyleFlip.Proofs.Spelling
import StyleFlip.Proofs.Depth
import StyleFlip.Proofs.ProperOutline
import StyleFlip.Proofs.Printing
import StyleFlip.Proofs.Bare
import StyleFlip.Proofs.Freshness
import StyleFlip.Proofs.Gluing
import StyleFlip.Proofs.Lookahead
import StyleFlip.Proofs.OneParse
import StyleFlip.Proofs.FlipTwice
import StyleFlip.Proofs.FlipSettles
import StyleFlip.Proofs.FlippedText
import StyleFlip.Proofs.MarkedItems
import StyleFlip.Proofs.PrefaceRule
import StyleFlip.Proofs.Interchange
import StyleFlip.Proofs.Concatenation
import StyleFlip.Proofs.Nesting
import StyleFlip.Proofs.Frame
import StyleFlip.Proofs.ExactPlaces
import StyleFlip.Proofs.CommandEffects
import StyleFlip.Proofs.JsonProgress
import StyleFlip.Proofs.RemovedItems
import StyleFlip.Proofs.PrefacePlace
import StyleFlip.Proofs.GuardedItems
import StyleFlip.Proofs.SidesAndCorners
import StyleFlip.Proofs.ExactSpans
import StyleFlip.Proofs.SourceAdvice
import StyleFlip.Proofs.Numerals
import StyleFlip.Proofs.SwappedPseudos
import StyleFlip.Proofs.WarningLines
import StyleFlip.Proofs.TracedFallbacks
import StyleFlip.Proofs.WholeWords
import StyleFlip.Proofs.UrlLiterals
import StyleFlip.Proofs.LoneTokens
import StyleFlip.Proofs.BodySegments
import StyleFlip.Proofs.CheckedParse
