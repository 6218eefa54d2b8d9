import StudyPlan.CommandLine.Arguments
import StudyPlan.CommandLine.Outcome
import StudyPlan.Course
import StudyPlan.Curriculum.Basic
import StudyPlan.Curriculum.OrderedMap
import StudyPlan.Event
import StudyPlan.Failure
import StudyPlan.Grammar.Body
import StudyPlan.Grammar.Construct
import StudyPlan.Grammar.Numeral
import StudyPlan.Grammar.Parser
import StudyPlan.Grammar.SyntaxError
import StudyPlan.Grammar.Table
import StudyPlan.Grammar.Terminal
import StudyPlan.Json.Basic
import StudyPlan.Json.Bytes
import StudyPlan.Json.Reader
import StudyPlan.Main
import StudyPlan.Overflow
import StudyPlan.Proofs.Acceptance
import StudyPlan.Proofs.Account
import StudyPlan.Proofs.Balanced
import StudyPlan.Proofs.Chronicle
import StudyPlan.Proofs.Concatenation
import StudyPlan.Proofs.Consistency
import StudyPlan.Proofs.CourseBody
import StudyPlan.Proofs.Decoding
import StudyPlan.Proofs.Derivation
import StudyPlan.Proofs.Disclosure
import StudyPlan.Proofs.Enclosure
import StudyPlan.Proofs.Envelope
import StudyPlan.Proofs.Exactness
import StudyPlan.Proofs.ExitCode
import StudyPlan.Proofs.History
import StudyPlan.Proofs.Joining
import StudyPlan.Proofs.JsonText
import StudyPlan.Proofs.LogText
import StudyPlan.Proofs.Lossless
import StudyPlan.Proofs.Magnitude
import StudyPlan.Proofs.Matching
import StudyPlan.Proofs.Meeting
import StudyPlan.Proofs.Members
import StudyPlan.Proofs.Narration
import StudyPlan.Proofs.PlaceOrder
import StudyPlan.Proofs.Placement
import StudyPlan.Proofs.Progress
import StudyPlan.Proofs.Promptness
import StudyPlan.Proofs.Recasing
import StudyPlan.Proofs.Relexing
import StudyPlan.Proofs.Rendering
import StudyPlan.Proofs.Resemblance
import StudyPlan.Proofs.Respelling
import StudyPlan.Proofs.RoundTrip
import StudyPlan.Proofs.Segmentation
import StudyPlan.Proofs.SettingsBytes
import StudyPlan.Proofs.SettingsText
import StudyPlan.Proofs.Shape
import StudyPlan.Proofs.Triple
import StudyPlan.Proofs.Verdict
import StudyPlan.Proofs.Window
import StudyPlan.Proofs.Writing
import StudyPlan.Report.Basic
import StudyPlan.Report.Json
import StudyPlan.Report.Rendering
import StudyPlan.Settings
import StudyPlan.Source.Fault
import StudyPlan.Source.Lexing
import StudyPlan.Source.Literal
import StudyPlan.Source.Nesting
import StudyPlan.Source.Position
import StudyPlan.Source.Segment
import StudyPlan.Token.Basic
import StudyPlan.Token.Delimiter
import StudyPlan.Token.Keyword
