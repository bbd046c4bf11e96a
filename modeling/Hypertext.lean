import Hypertext.Attributes
import Hypertext.CommandLine
import Hypertext.CommandLine.Arguments
import Hypertext.Decimal.Positional
import Hypertext.Decimal.Shortest
import Hypertext.Effect
import Hypertext.Error
import Hypertext.Html.Entity
import Hypertext.Html.Grammar
import Hypertext.Html.Literal
import Hypertext.Html.Parser
import Hypertext.Html.Readable
import Hypertext.Html.WellFormed
import Hypertext.Html.Writer
import Hypertext.Literal
import Hypertext.Literal.Normal
import Hypertext.Main
import Hypertext.Pairs
import Hypertext.Path
import Hypertext.Proofs.Html.Charset
import Hypertext.Proofs.Html.Element
import Hypertext.Proofs.Html.Entity
import Hypertext.Proofs.Html.Given
import Hypertext.Proofs.Html.Literal
import Hypertext.Proofs.Html.Merged
import Hypertext.Proofs.Html.Raw
import Hypertext.Proofs.Html.RoundTrip
import Hypertext.Proofs.Html.Tag
import Hypertext.Proofs.Letters
import Hypertext.Proofs.Literal.Canonical
import Hypertext.Proofs.Outline
import Hypertext.Proofs.Reader
import Hypertext.Proofs.Removal
import Hypertext.Proofs.Replaced
import Hypertext.Proofs.Rewrite
import Hypertext.Proofs.Selection
import Hypertext.Proofs.Selector.Attribute
import Hypertext.Proofs.Selector.Canonical
import Hypertext.Proofs.Selector.Cleared
import Hypertext.Proofs.Selector.Compound
import Hypertext.Proofs.Selector.Match
import Hypertext.Proofs.Selector.Name
import Hypertext.Proofs.Selector.Plain
import Hypertext.Proofs.Selector.RoundTrip
import Hypertext.Proofs.Selector.Simple
import Hypertext.Proofs.Walk.Calls
import Hypertext.Proofs.Walk.Failure
import Hypertext.Proofs.Walk.Position
import Hypertext.Proofs.Walk.Script
import Hypertext.Proofs.Walk.Sound
import Hypertext.Proofs.Walk.Stack
import Hypertext.Proofs.Walk.Step
import Hypertext.Proofs.Wrapping
import Hypertext.Reader
import Hypertext.Replacement
import Hypertext.Rewrite
import Hypertext.Rewrite.Plain
import Hypertext.Selection
import Hypertext.Selector
import Hypertext.Selector.Canonical
import Hypertext.Selector.Grammar
import Hypertext.Selector.Match
import Hypertext.Selector.Parser
import Hypertext.Selector.Printer
import Hypertext.Selector.Written
import Hypertext.Text.Blank
import Hypertext.Text.Digits
import Hypertext.Text.Line
import Hypertext.Text.Quoted
import Hypertext.Text.Utf8
import Hypertext.Text.Visible
import Hypertext.Tree
import Hypertext.Tree.Attribute
import Hypertext.Tree.Display
import Hypertext.Tree.Equality
import Hypertext.Tree.Every
import Hypertext.Tree.Order
import Hypertext.Walk
import Hypertext.Walk.Request
import Hypertext.Proofs.Update
import Hypertext.Proofs.Children
import Hypertext.Proofs.Equality
import Hypertext.Proofs.Selector.Context
import Hypertext.Proofs.TextContent
import Hypertext.Proofs.Selector.Equality
import Hypertext.Proofs.Reader.Continued
import Hypertext.Proofs.Selector.Alone
import Hypertext.Proofs.Selector.LetterCase
import Hypertext.Proofs.Selector.Continued
import Hypertext.Proofs.Selector.Group
import Hypertext.Proofs.Selector.Unsupported
import Hypertext.Proofs.Digits
import Hypertext.Proofs.Html.RawText
import Hypertext.Proofs.ParseError
import Hypertext.Proofs.Selector.Spelling
import Hypertext.Proofs.Html.Continued
import Hypertext.Literal.Items
import Hypertext.Proofs.Html.Noise
import Hypertext.Literal.Fault
import Hypertext.Proofs.Literal.Children
import Hypertext.Proofs.Literal.Fault
import Hypertext.Proofs.History
import Hypertext.Proofs.Classes
import Hypertext.Proofs.Merging
import Hypertext.Proofs.Html.Declared
import Hypertext.Proofs.Walk.Rebuild
import Hypertext.Proofs.Layout
