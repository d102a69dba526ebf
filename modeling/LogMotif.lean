import LogMotif.Action
import LogMotif.Action.Reader
import LogMotif.Cell
import LogMotif.Column
import LogMotif.CommandLine.Arguments
import LogMotif.CommandLine.Command
import LogMotif.CommandLine.Help
import LogMotif.CommandLine.Report
import LogMotif.Config
import LogMotif.Corpus
import LogMotif.Decimal.Binary64
import LogMotif.Decimal.Shortest
import LogMotif.Entry
import LogMotif.Error
import LogMotif.Files
import LogMotif.Files.Tree
import LogMotif.Filter
import LogMotif.Index
import LogMotif.Json.Decode
import LogMotif.Json.Fault
import LogMotif.Json.Literal
import LogMotif.Json.Message
import LogMotif.Json.Quote
import LogMotif.Json.Reader
import LogMotif.Json.Source
import LogMotif.Json.Value
import LogMotif.Link
import LogMotif.Log
import LogMotif.Main
import LogMotif.Matches
import LogMotif.Motif
import LogMotif.Pattern.Budget
import LogMotif.Pattern.Line
import LogMotif.Pattern.Regex
import LogMotif.Pattern.Threads
import LogMotif.Proofs.Action.Rereading
import LogMotif.Proofs.Action.Values
import LogMotif.Proofs.Action.Words
import LogMotif.Proofs.Cell.Edits
import LogMotif.Proofs.Cell.Offsets
import LogMotif.Proofs.Cell.Positions
import LogMotif.Proofs.Cell.Rendering
import LogMotif.Proofs.Cell.Spans
import LogMotif.Proofs.Cell.Splitting
import LogMotif.Proofs.Config.Rereading
import LogMotif.Proofs.Corpus.Encoding
import LogMotif.Proofs.Corpus.Lines
import LogMotif.Proofs.Corpus.Partition
import LogMotif.Proofs.Corpus.Rows
import LogMotif.Proofs.FirstPlaces
import LogMotif.Proofs.Json.Escape
import LogMotif.Proofs.Json.Layout
import LogMotif.Proofs.Json.Lists
import LogMotif.Proofs.Json.Nesting
import LogMotif.Proofs.Json.Reading
import LogMotif.Proofs.Json.Replay
import LogMotif.Proofs.Json.ReplayLiteral
import LogMotif.Proofs.Json.ReplayValue
import LogMotif.Proofs.Json.Separated
import LogMotif.Proofs.Json.Words
import LogMotif.Proofs.Json.Writing
import LogMotif.Proofs.Json.Yielding
import LogMotif.Proofs.Log.Admission
import LogMotif.Proofs.Log.Filtering
import LogMotif.Proofs.Log.Forms
import LogMotif.Proofs.Log.Records
import LogMotif.Proofs.Log.RuleColumns
import LogMotif.Proofs.Log.Table
import LogMotif.Proofs.Motif.Agreement
import LogMotif.Proofs.Motif.Appending
import LogMotif.Proofs.Motif.Bookkeeping
import LogMotif.Proofs.Motif.Clearing
import LogMotif.Proofs.Motif.Commuting
import LogMotif.Proofs.Motif.Consistency
import LogMotif.Proofs.Motif.Edits
import LogMotif.Proofs.Motif.Links
import LogMotif.Proofs.Motif.Listing
import LogMotif.Proofs.Motif.Marks
import LogMotif.Proofs.Motif.Markup
import LogMotif.Proofs.Motif.Placement
import LogMotif.Proofs.Motif.Refusals
import LogMotif.Proofs.Motif.Renumbering
import LogMotif.Proofs.Motif.Restoring
import LogMotif.Proofs.Motif.Selections
import LogMotif.Proofs.Motif.Shape
import LogMotif.Proofs.Motif.Thinning
import LogMotif.Proofs.Outcomes
import LogMotif.Proofs.Pattern.Attempt
import LogMotif.Proofs.Pattern.Content
import LogMotif.Proofs.Pattern.Groups
import LogMotif.Proofs.Pattern.Headroom
import LogMotif.Proofs.Pattern.Meaning
import LogMotif.Proofs.Pattern.Notation
import LogMotif.Proofs.Pattern.Pieces
import LogMotif.Proofs.Pattern.Readback
import LogMotif.Proofs.Pattern.Reading
import LogMotif.Proofs.Pattern.Renaming
import LogMotif.Proofs.Pattern.Shortest
import LogMotif.Proofs.Pattern.Source
import LogMotif.Proofs.Query.Compilation
import LogMotif.Proofs.Query.Composition
import LogMotif.Proofs.Query.Definitions
import LogMotif.Proofs.Query.Display
import LogMotif.Proofs.Query.Lines
import LogMotif.Proofs.Query.Matching
import LogMotif.Proofs.Query.Members
import LogMotif.Proofs.Query.Parts
import LogMotif.Proofs.Query.Renaming
import LogMotif.Proofs.Query.Spelling
import LogMotif.Proofs.Search.Alike
import LogMotif.Proofs.Search.Assignment
import LogMotif.Proofs.Search.Budget
import LogMotif.Proofs.Search.Calls
import LogMotif.Proofs.Search.Candidates
import LogMotif.Proofs.Search.Capturing
import LogMotif.Proofs.Search.Chain
import LogMotif.Proofs.Search.Earliest
import LogMotif.Proofs.Search.Growth
import LogMotif.Proofs.Search.Headroom
import LogMotif.Proofs.Search.MatchedLines
import LogMotif.Proofs.Search.Memory
import LogMotif.Proofs.Search.Plain
import LogMotif.Proofs.Search.Recapture
import LogMotif.Proofs.Search.Relaxation
import LogMotif.Proofs.Search.Renaming
import LogMotif.Proofs.Session.Appending
import LogMotif.Proofs.Session.Bookkeeping
import LogMotif.Proofs.Session.CellTexts
import LogMotif.Proofs.Session.Clearing
import LogMotif.Proofs.Session.Commuting
import LogMotif.Proofs.Session.Compiling
import LogMotif.Proofs.Session.Display
import LogMotif.Proofs.Session.Form
import LogMotif.Proofs.Session.IgnoredColumns
import LogMotif.Proofs.Session.Instances
import LogMotif.Proofs.Session.Links
import LogMotif.Proofs.Session.LoneWildcards
import LogMotif.Proofs.Session.Markup
import LogMotif.Proofs.Session.MatchedCells
import LogMotif.Proofs.Session.Navigation
import LogMotif.Proofs.Session.OverText
import LogMotif.Proofs.Session.Reachable
import LogMotif.Proofs.Session.Refusals
import LogMotif.Proofs.Session.Relaxation
import LogMotif.Proofs.Session.Restoring
import LogMotif.Proofs.Session.Results
import LogMotif.Proofs.Session.Retouching
import LogMotif.Proofs.Session.Soundness
import LogMotif.Proofs.Session.SourceRows
import LogMotif.Proofs.Session.SourceTexts
import LogMotif.Query
import LogMotif.Search
import LogMotif.Session
import LogMotif.Text.Blank
import LogMotif.Text.Lines
import LogMotif.Text.Printable
import LogMotif.Text.Quoted
import LogMotif.Text.Utf8
import LogMotif.Timestamp
import LogMotif.Wildcard
