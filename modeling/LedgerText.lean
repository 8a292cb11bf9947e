import LedgerText.Interchange.Directive
import LedgerText.Main
import LedgerText.Proofs.Grammar.Reading
import LedgerText.Proofs.Grammar.Postings
import LedgerText.Proofs.Grammar.Transactions
import LedgerText.Proofs.Grammar.Statements
import LedgerText.Proofs.Grammar.Declarations
import LedgerText.Proofs.Grammar.Moving
import LedgerText.Proofs.Parse.Ledger
import LedgerText.Proofs.Parse.Quiet
import LedgerText.Proofs.Parse.Excerpt
import LedgerText.Proofs.Parse.Course
import LedgerText.Proofs.Parse.Effects
import LedgerText.Proofs.Parse.Naming
import LedgerText.Proofs.Parse.Orderly
import LedgerText.Proofs.Parse.Probing
import LedgerText.Proofs.Parse.Prospects
import LedgerText.Proofs.Tags.Unmatched
import LedgerText.Proofs.Tags.Headers
import LedgerText.Proofs.Tags.Scoping
import LedgerText.Proofs.Tags.Counting
import LedgerText.Proofs.Lexing.Extent
import LedgerText.Proofs.Lexing.Pieces
import LedgerText.Proofs.Lexing.Classes
import LedgerText.Proofs.Lexing.Parts
import LedgerText.Proofs.Lexing.Patterns
import LedgerText.Proofs.Lexing.Matching
import LedgerText.Proofs.Lexing.Longest
import LedgerText.Proofs.Lexing.Joining
import LedgerText.Proofs.Lexing.Lossless
import LedgerText.Proofs.Lexing.Lines
import LedgerText.Proofs.Lexing.Returns
import LedgerText.Proofs.Lexing.Literals
import LedgerText.Proofs.Lexing.Days
import LedgerText.Proofs.Lexing.Numbers
import LedgerText.Proofs.Recovery.Splitting
import LedgerText.Proofs.Recovery.Surviving
import LedgerText.Proofs.Recovery.Settling
import LedgerText.Proofs.Recovery.Expecting
import LedgerText.Proofs.Recovery.Stopping
import LedgerText.Proofs.Recovery.Framing
import LedgerText.Proofs.Recovery.Segments
import LedgerText.Proofs.Recovery.Accounting
import LedgerText.Proofs.Recovery.Tracing
import LedgerText.Proofs.Recovery.Ending
import LedgerText.Proofs.Recovery.Consuming
import LedgerText.Proofs.Comments.Parallel
import LedgerText.Proofs.Comments.Transparency
import LedgerText.Proofs.RoundTrip.Numerals
import LedgerText.Proofs.RoundTrip.Rounding
import LedgerText.Proofs.RoundTrip.WellFormed
import LedgerText.Proofs.RoundTrip.Scanning
import LedgerText.Proofs.RoundTrip.Cutting
import LedgerText.Proofs.RoundTrip.Phrases
import LedgerText.Proofs.RoundTrip.Entries
import LedgerText.Proofs.RoundTrip.Reparsing
import LedgerText.Proofs.RoundTrip.Reprinting
import LedgerText.Proofs.RoundTrip.Delimiting
import LedgerText.Proofs.Building.Visits
import LedgerText.Proofs.Building.Trees
import LedgerText.Proofs.Building.Following
import LedgerText.Proofs.Building.Productions
import LedgerText.Proofs.Building.Turns
import LedgerText.Proofs.Building.Recording
import LedgerText.Proofs.Building.Protocol
import LedgerText.Proofs.Places.Spans
import LedgerText.Proofs.Places.Halting
import LedgerText.Proofs.Places.Results
import LedgerText.Proofs.Places.Showing
import LedgerText.Proofs.Places.Pointing
import LedgerText.Proofs.Places.Offsets
import LedgerText.Proofs.Layout.Columns
import LedgerText.Proofs.Command.Checking
