import PascalSyntax.Main
import PascalSyntax.Proofs.Command.Output
import PascalSyntax.Proofs.Expr.Agreement
import PascalSyntax.Proofs.Expr.Failing
import PascalSyntax.Proofs.Expr.Reading
import PascalSyntax.Proofs.Expr.Rendering
import PascalSyntax.Proofs.Expr.Spelling
import PascalSyntax.Proofs.Grammar.Derivation
import PascalSyntax.Proofs.Grammar.Exact
import PascalSyntax.Proofs.Grammar.Phrase
import PascalSyntax.Proofs.Grammar.Rules
import PascalSyntax.Proofs.Grammar.Tracking
import PascalSyntax.Proofs.Grammar.Trees
import PascalSyntax.Proofs.Grammar.Viable
import PascalSyntax.Proofs.Listing.Faithful
import PascalSyntax.Proofs.Listing.Lines
import PascalSyntax.Proofs.Listing.Nodes
import PascalSyntax.Proofs.Listing.Printing
import PascalSyntax.Proofs.Parser.Agreement
import PascalSyntax.Proofs.Parser.Failing
import PascalSyntax.Proofs.Parser.Local
import PascalSyntax.Proofs.Parser.Loops
import PascalSyntax.Proofs.Parser.Reading
import PascalSyntax.Proofs.Parser.Room
import PascalSyntax.Proofs.Program.Agreement
import PascalSyntax.Proofs.Program.Conservation
import PascalSyntax.Proofs.Program.Depth
import PascalSyntax.Proofs.Program.Failing
import PascalSyntax.Proofs.Program.Faithful
import PascalSyntax.Proofs.Program.Layout
import PascalSyntax.Proofs.Program.NearestElse
import PascalSyntax.Proofs.Program.Reading
import PascalSyntax.Proofs.Program.RoundTrip
import PascalSyntax.Proofs.Program.Spelling
import PascalSyntax.Proofs.Program.ViablePrefix
import PascalSyntax.Proofs.Statement.Agreement
import PascalSyntax.Proofs.Statement.Dangling
import PascalSyntax.Proofs.Statement.Failing
import PascalSyntax.Proofs.Statement.Reading
import PascalSyntax.Proofs.Statement.Room
import PascalSyntax.Proofs.Statement.Spelling
import PascalSyntax.Proofs.Text.Numeral
import PascalSyntax.Proofs.Text.Offset
import PascalSyntax.Proofs.Token.Layout
import PascalSyntax.Proofs.Token.Leftmost
import PascalSyntax.Proofs.Token.Positions
import PascalSyntax.Proofs.Token.Reading
import PascalSyntax.Proofs.Token.Resuming
import PascalSyntax.Proofs.Token.Words
import PascalSyntax.Proofs.Tree.Entries
import PascalSyntax.Proofs.Tree.Erasure
import PascalSyntax.Proofs.Tree.Nested
import PascalSyntax.Proofs.Tree.Origins
import PascalSyntax.Proofs.Tree.Rereading
import PascalSyntax.Proofs.Tree.WellFormed
import PascalSyntax.Proofs.Tree.Words
import PascalSyntax.Proofs.Token.Unbounded
import PascalSyntax.Proofs.Program.Need
import PascalSyntax.Proofs.Program.Nodes
import PascalSyntax.Proofs.Program.Sound
import PascalSyntax.Proofs.Program.Height
import PascalSyntax.Proofs.Program.Leaves
import PascalSyntax.Proofs.Token.Repeating
import PascalSyntax.Proofs.Token.Joining
import PascalSyntax.Proofs.Tree.Directions
import PascalSyntax.Proofs.Program.Alphabet
import PascalSyntax.Proofs.Program.Directions
import PascalSyntax.Proofs.Program.Colons
import PascalSyntax.Proofs.Program.Groups
import PascalSyntax.Proofs.Listing.Tokens
import PascalSyntax.Proofs.Listing.Captions
import PascalSyntax.Proofs.Listing.Colors
import PascalSyntax.Proofs.Program.EmptyStatements
import PascalSyntax.Proofs.Program.Headings
import PascalSyntax.Proofs.Program.Progress
import PascalSyntax.Proofs.Command.Arrangements
import PascalSyntax.Proofs.Parser.Walks
