import MethodHistory.Admission
import MethodHistory.Alignment
import MethodHistory.Change.Basic
import MethodHistory.Change.Draft
import MethodHistory.Change.Kind
import MethodHistory.Change.Record
import MethodHistory.CommandLine.Arguments
import MethodHistory.CommandLine.Report
import MethodHistory.Commit
import MethodHistory.Decimal.Nearest
import MethodHistory.Decimal.Number
import MethodHistory.Decimal.Shortest
import MethodHistory.Decimal.Written
import MethodHistory.Diff.Body
import MethodHistory.Diff.File
import MethodHistory.Diff.Matching
import MethodHistory.Diff.Signature
import MethodHistory.Engine
import MethodHistory.Failure
import MethodHistory.FirstFit
import MethodHistory.Folder
import MethodHistory.Given
import MethodHistory.Hosted.Address
import MethodHistory.Hosted.Exchange
import MethodHistory.Hosted.Pages
import MethodHistory.Hosted.Repository
import MethodHistory.Job
import MethodHistory.Json.Basic
import MethodHistory.Json.Quoted
import MethodHistory.Json.Reader
import MethodHistory.Json.Written
import MethodHistory.Limit
import MethodHistory.Local
import MethodHistory.Location
import MethodHistory.LoosePath
import MethodHistory.Main
import MethodHistory.Misuse
import MethodHistory.ProjectName
import MethodHistory.Proofs.Admission
import MethodHistory.Proofs.Alignment
import MethodHistory.Proofs.BlockHistory
import MethodHistory.Proofs.CommandLine
import MethodHistory.Proofs.CommonOrder
import MethodHistory.Proofs.Diff.AccountedFor
import MethodHistory.Proofs.Diff.Accounts
import MethodHistory.Proofs.Diff.Alike
import MethodHistory.Proofs.Diff.Comments
import MethodHistory.Proofs.Diff.Comparisons
import MethodHistory.Proofs.Diff.Declarations
import MethodHistory.Proofs.Diff.Enclosures
import MethodHistory.Proofs.Diff.FoundMoves
import MethodHistory.Proofs.Diff.Fragments
import MethodHistory.Proofs.Diff.Layout
import MethodHistory.Proofs.Diff.Legible
import MethodHistory.Proofs.Diff.Matching
import MethodHistory.Proofs.Diff.MaximalMatching
import MethodHistory.Proofs.Diff.Moves
import MethodHistory.Proofs.Diff.Parameters
import MethodHistory.Proofs.Diff.Patch
import MethodHistory.Proofs.Diff.Reformatted
import MethodHistory.Proofs.Diff.Regions
import MethodHistory.Proofs.Diff.Resolution
import MethodHistory.Proofs.Diff.SingleEdit
import MethodHistory.Proofs.Diff.Unchanged
import MethodHistory.Proofs.FirstFit
import MethodHistory.Proofs.Firsts
import MethodHistory.Proofs.Hosted.Address
import MethodHistory.Proofs.Hosted.Listing
import MethodHistory.Proofs.Json.Reading
import MethodHistory.Proofs.LevelAlignment
import MethodHistory.Proofs.LineSink
import MethodHistory.Proofs.Local
import MethodHistory.Proofs.LongestRun
import MethodHistory.Proofs.Moved
import MethodHistory.Proofs.Packages
import MethodHistory.Proofs.Perform
import MethodHistory.Proofs.Rotation
import MethodHistory.Proofs.Run.Completion
import MethodHistory.Proofs.Run.Composed
import MethodHistory.Proofs.Run.Consistency
import MethodHistory.Proofs.Run.Course
import MethodHistory.Proofs.Run.Emission
import MethodHistory.Proofs.Run.Progress
import MethodHistory.Proofs.Run.Reference
import MethodHistory.Proofs.Run.Repetition
import MethodHistory.Proofs.Run.Separation
import MethodHistory.Proofs.Run.Splitting
import MethodHistory.Proofs.Run.Steady
import MethodHistory.Proofs.Run.Stopping
import MethodHistory.Proofs.Run.Structural
import MethodHistory.Proofs.Run.Tidiness
import MethodHistory.Proofs.Run.Walk
import MethodHistory.Proofs.Segmentation
import MethodHistory.Proofs.Settings
import MethodHistory.Proofs.Similarity
import MethodHistory.Proofs.Snapshots
import MethodHistory.Proofs.StableSort
import MethodHistory.Proofs.Stopping
import MethodHistory.Proofs.Survey.Blocks
import MethodHistory.Proofs.Survey.Calm
import MethodHistory.Proofs.Survey.Composed
import MethodHistory.Proofs.Survey.Endpoints
import MethodHistory.Proofs.Survey.Lookup
import MethodHistory.Proofs.Survey.Predecessors
import MethodHistory.Proofs.Survey.Ranges
import MethodHistory.Proofs.Survey.Resolution
import MethodHistory.Proofs.Survey.WindowOrder
import MethodHistory.Proofs.Text.NormalForm
import MethodHistory.Proofs.Text.Pattern
import MethodHistory.Proofs.Text.Words
import MethodHistory.Proofs.Time.Reading
import MethodHistory.Proofs.WindowHistory
import MethodHistory.Range
import MethodHistory.Run
import MethodHistory.Settings.Basic
import MethodHistory.Settings.File
import MethodHistory.Similarity
import MethodHistory.Sink
import MethodHistory.Slots
import MethodHistory.Source
import MethodHistory.Survey
import MethodHistory.Syntax.Declaration
import MethodHistory.Syntax.Language
import MethodHistory.Syntax.Node
import MethodHistory.Syntax.Statement
import MethodHistory.Table
import MethodHistory.Text.Casing
import MethodHistory.Text.Digit
import MethodHistory.Text.Lines
import MethodHistory.Text.Lowercase
import MethodHistory.Text.Numeral
import MethodHistory.Text.Pattern
import MethodHistory.Text.Quoted
import MethodHistory.Text.Surrogate
import MethodHistory.Text.Unprintable
import MethodHistory.Text.Utf8
import MethodHistory.Text.Words
import MethodHistory.Time.Calendar
import MethodHistory.Time.Instant
import MethodHistory.Time.Iso
