import RobotHand.CommandLine.Arguments
import RobotHand.CommandLine.Command
import RobotHand.CommandLine.Report
import RobotHand.CommandLine.Word
import RobotHand.Control.Basic
import RobotHand.Control.Exchange
import RobotHand.Control.Operation
import RobotHand.Control.Replay
import RobotHand.Control.Steering
import RobotHand.Document.Checked
import RobotHand.Document.Complaint
import RobotHand.Document.Record
import RobotHand.Document.Scalar
import RobotHand.Files.Path
import RobotHand.Files.Tree
import RobotHand.Formula.Assembly
import RobotHand.Formula.EvalError
import RobotHand.Formula.Evaluation
import RobotHand.Formula.Expr
import RobotHand.Formula.Malformed
import RobotHand.Formula.Position
import RobotHand.Formula.Scan
import RobotHand.Formula.Token
import RobotHand.Formula.Variable
import RobotHand.Hand.Landmark
import RobotHand.Hand.Point
import RobotHand.Hand.Reading
import RobotHand.Json.Basic
import RobotHand.Json.Printing
import RobotHand.Json.Reading
import RobotHand.Json.Token
import RobotHand.Link.Client
import RobotHand.Link.Dialogue
import RobotHand.Link.Operation
import RobotHand.Link.Wire
import RobotHand.Main
import RobotHand.Number.Binary64
import RobotHand.Number.Breakdown
import RobotHand.Number.Decimal
import RobotHand.Number.Integer
import RobotHand.Number.Literal
import RobotHand.Number.Range
import RobotHand.Number.Rounding
import RobotHand.Proofs.CommandLine.Checking
import RobotHand.Proofs.CommandLine.Lines
import RobotHand.Proofs.CommandLine.Replaying
import RobotHand.Proofs.Control.Agreement
import RobotHand.Proofs.Control.Blocking
import RobotHand.Proofs.Control.Calculation
import RobotHand.Proofs.Control.Collecting
import RobotHand.Proofs.Control.Connection
import RobotHand.Proofs.Control.Effects
import RobotHand.Proofs.Control.Escapes
import RobotHand.Proofs.Control.Evaluating
import RobotHand.Proofs.Control.Exchanges
import RobotHand.Proofs.Control.Failing
import RobotHand.Proofs.Control.Filtering
import RobotHand.Proofs.Control.Gates
import RobotHand.Proofs.Control.Independence
import RobotHand.Proofs.Control.Laps
import RobotHand.Proofs.Control.Losses
import RobotHand.Proofs.Control.Posting
import RobotHand.Proofs.Control.Range
import RobotHand.Proofs.Control.Rehearsal
import RobotHand.Proofs.Control.Runs
import RobotHand.Proofs.Control.Schedule
import RobotHand.Proofs.Control.Stopping
import RobotHand.Proofs.Control.Streaming
import RobotHand.Proofs.Control.Transcripts
import RobotHand.Proofs.Control.Undisturbed
import RobotHand.Proofs.Digits
import RobotHand.Proofs.Double.Arithmetic
import RobotHand.Proofs.Double.Bounds
import RobotHand.Proofs.Double.Differences
import RobotHand.Proofs.Double.Halves
import RobotHand.Proofs.Double.Identity
import RobotHand.Proofs.Double.Integers
import RobotHand.Proofs.Double.Order
import RobotHand.Proofs.Double.Packing
import RobotHand.Proofs.Double.Quotients
import RobotHand.Proofs.Double.Rounding
import RobotHand.Proofs.Double.Shortest
import RobotHand.Proofs.Double.Values
import RobotHand.Proofs.Evaluation.Breakdowns
import RobotHand.Proofs.Evaluation.Nesting
import RobotHand.Proofs.Evaluation.Operations
import RobotHand.Proofs.Evaluation.Related
import RobotHand.Proofs.Evaluation.Replacement
import RobotHand.Proofs.Evaluation.Settling
import RobotHand.Proofs.Evaluation.Strictness
import RobotHand.Proofs.Evaluation.Visibility
import RobotHand.Proofs.Grammar.Basic
import RobotHand.Proofs.Grammar.Completeness
import RobotHand.Proofs.Grammar.Parsing
import RobotHand.Proofs.Grammar.Soundness
import RobotHand.Proofs.Json.Decimals
import RobotHand.Proofs.Json.Integers
import RobotHand.Proofs.Json.RoundTrip
import RobotHand.Proofs.Json.Texts
import RobotHand.Proofs.Json.Tokens
import RobotHand.Proofs.Link.Sessions
import RobotHand.Proofs.Literals
import RobotHand.Proofs.Outcomes
import RobotHand.Proofs.Printing.RoundTrip
import RobotHand.Proofs.Printing.Scanning
import RobotHand.Proofs.Printing.Script
import RobotHand.Proofs.Settings.Documents
import RobotHand.Proofs.Settings.Identifiers
import RobotHand.Proofs.Settings.Storage
import RobotHand.Proofs.Settings.Usability
import RobotHand.Proofs.Tables
import RobotHand.Proofs.Trees
import RobotHand.Servo.Basic
import RobotHand.Servo.Identifier
import RobotHand.Servo.Reading
import RobotHand.Settings.Basic
import RobotHand.Settings.Storage
import RobotHand.Settings.Text
import RobotHand.Table
import RobotHand.Text.Blank
import RobotHand.Text.DecimalDigit
import RobotHand.Text.Printable
import RobotHand.Text.Quoted
import RobotHand.Proofs.Grammar.Viability
import RobotHand.Proofs.Control.Notices
import RobotHand.Proofs.Printing.Segmentation
import RobotHand.Proofs.Settings.Atomicity
import RobotHand.Proofs.Printing.Separators
import RobotHand.Proofs.Control.Blanks
import RobotHand.Proofs.Double.Nearest
import RobotHand.Proofs.Grammar.Openings
import RobotHand.Proofs.Evaluation.Regularity
import RobotHand.Proofs.Evaluation.Spellings
import RobotHand.Proofs.Double.HalfUp
import RobotHand.Proofs.Evaluation.Positions
import RobotHand.Proofs.Evaluation.Mapping
import RobotHand.Proofs.CommandLine.Reaching
import RobotHand.Proofs.Printing.Flat
import RobotHand.Proofs.Evaluation.Flat
