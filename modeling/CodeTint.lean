import CodeTint.Host.Object
import CodeTint.Highlight.Scan
import CodeTint.Main
import CodeTint.Proofs.Text.Cursor
import CodeTint.Proofs.Pattern.Search
import CodeTint.Proofs.Highlight.Spans
import CodeTint.Proofs.Highlight.Begin
import CodeTint.Proofs.Highlight.Pieces
import CodeTint.Proofs.Highlight.Lookahead
import CodeTint.Proofs.Highlight.Partition
import CodeTint.Proofs.Json.Members
import CodeTint.Proofs.Text.Literals
import CodeTint.Proofs.Grammar.KeywordSet
import CodeTint.Proofs.Host.Keywords
import CodeTint.Proofs.Host.Declarations
import CodeTint.Proofs.Host.Modes
import CodeTint.Proofs.Host.RoundTrip
import CodeTint.Proofs.Host.Groups
import CodeTint.Proofs.Host.NormalForm
import CodeTint.Proofs.Json.Texts
import CodeTint.Proofs.Host.Text
import CodeTint.Proofs.Pattern.Lines
import CodeTint.Proofs.Highlight.Lines
import CodeTint.Proofs.Alakon.Patterns
import CodeTint.Proofs.Highlight.Words
import CodeTint.Proofs.Alakon.Strings
import CodeTint.Proofs.Highlight.Visits
import CodeTint.Proofs.Pattern.Choice
import CodeTint.Proofs.Text.Longest
import CodeTint.Proofs.Text.Runs
import CodeTint.Proofs.Pattern.Munch
import CodeTint.Proofs.Alakon.Tokens
import CodeTint.Proofs.Alakon.NumberMatches
import CodeTint.Proofs.Alakon.SignedNumbers
import CodeTint.Proofs.Alakon.PlainNumbers
import CodeTint.Proofs.Alakon.Identifiers
import CodeTint.Proofs.Alakon.Words
import CodeTint.Proofs.Style.Sequence
import CodeTint.Proofs.Render.Html
import CodeTint.Proofs.Render.Terminal
import CodeTint.Proofs.Render.Listing
import CodeTint.Proofs.Command.Arguments
import CodeTint.Proofs.Highlight.RuleLists
import CodeTint.Proofs.Alakon.Begin
import CodeTint.Proofs.Alakon.Items
import CodeTint.Proofs.Command.Run
import CodeTint.Proofs.Host.Acceptance
import CodeTint.Proofs.Host.Variants
import CodeTint.Proofs.Alakon.Alone
import CodeTint.Proofs.Highlight.Progress
import CodeTint.Proofs.Json.Spelling
import CodeTint.Proofs.Json.Reordering
import CodeTint.Proofs.Json.Decoding
import CodeTint.Proofs.Grammar.RoundTrip
import CodeTint.Proofs.Highlight.MoreWords
import CodeTint.Proofs.Host.WordLists
import CodeTint.Proofs.Host.Renaming
import CodeTint.Proofs.Pattern.Positions
import CodeTint.Proofs.Style.Hollow
import CodeTint.Proofs.Style.EffectsText
import CodeTint.Proofs.Json.Editing
import CodeTint.Proofs.Config.RoundTrip
