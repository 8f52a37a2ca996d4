import Proctor.Admission
import Proctor.Archive.Header
import Proctor.Archive.Pack
import Proctor.Archive.Path
import Proctor.Archive.Sparse
import Proctor.Archive.Unpack
import Proctor.Authority
import Proctor.Backoff
import Proctor.Base64
import Proctor.Binary64
import Proctor.Binary64.Shortest
import Proctor.Binary64.Text
import Proctor.Bundle
import Proctor.Bytes
import Proctor.Commit
import Proctor.Decimal
import Proctor.Dispatch
import Proctor.Engine
import Proctor.Engine.Docker
import Proctor.Engine.Memory
import Proctor.Engine.Process
import Proctor.Event
import Proctor.Glob
import Proctor.Grading
import Proctor.Heartbeat
import Proctor.Hex
import Proctor.Host
import Proctor.Host.Address
import Proctor.Http
import Proctor.Json.Basic
import Proctor.Json.Number
import Proctor.Json.Printer
import Proctor.Json.Reader
import Proctor.Json.Record
import Proctor.Json.Token
import Proctor.KeyMap
import Proctor.Limits
import Proctor.Main
import Proctor.Percent
import Proctor.Problem
import Proctor.ProblemType
import Proctor.Proofs.ActionVerdict
import Proctor.Proofs.Admission
import Proctor.Proofs.AdmissionOrder
import Proctor.Proofs.ArchiveContents
import Proctor.Proofs.BareSuites
import Proctor.Proofs.Base64
import Proctor.Proofs.Calendar
import Proctor.Proofs.CanonicalText
import Proctor.Proofs.CapacityShares
import Proctor.Proofs.CardScore
import Proctor.Proofs.CaseResults
import Proctor.Proofs.ClientIndependence
import Proctor.Proofs.ClimbingPaths
import Proctor.Proofs.CommandOutcome
import Proctor.Proofs.CommitText
import Proctor.Proofs.Decimal
import Proctor.Proofs.DocumentEvents
import Proctor.Proofs.DocumentLists
import Proctor.Proofs.DocumentReading
import Proctor.Proofs.DocumentScan
import Proctor.Proofs.DocumentText
import Proctor.Proofs.EventLine
import Proctor.Proofs.EventRelay
import Proctor.Proofs.FailureLocation
import Proctor.Proofs.FieldCalls
import Proctor.Proofs.HeaderBlock
import Proctor.Proofs.HeartbeatArrival
import Proctor.Proofs.HomeSnapshot
import Proctor.Proofs.InstantText
import Proctor.Proofs.JsonRecord
import Proctor.Proofs.JsonText
import Proctor.Proofs.LimitOverrides
import Proctor.Proofs.NearestNumber
import Proctor.Proofs.NothingLeft
import Proctor.Proofs.NumeralValue
import Proctor.Proofs.Ownership
import Proctor.Proofs.PackedFiles
import Proctor.Proofs.PlainPath
import Proctor.Proofs.ProblemText
import Proctor.Proofs.ProblemTypeText
import Proctor.Proofs.RecordFields
import Proctor.Proofs.RecordKinds
import Proctor.Proofs.RegistryLog
import Proctor.Proofs.ReportVerdict
import Proctor.Proofs.Rereading
import Proctor.Proofs.ReservedUids
import Proctor.Proofs.RetrySchedule
import Proctor.Proofs.ReturnedBundle
import Proctor.Proofs.SandboxLife
import Proctor.Proofs.ScoreText
import Proctor.Proofs.ShortestDigits
import Proctor.Proofs.SignatureSpelling
import Proctor.Proofs.SignedCommit
import Proctor.Proofs.SignedPlan
import Proctor.Proofs.SignedProblem
import Proctor.Proofs.SignedRegistration
import Proctor.Proofs.SocketAnswer
import Proctor.Proofs.StoredPath
import Proctor.Proofs.StreamRuns
import Proctor.Proofs.StrictBase64
import Proctor.Proofs.SuiteReading
import Proctor.Proofs.Templates
import Proctor.Proofs.TimeWindows
import Proctor.Proofs.TranscriptBudgets
import Proctor.Proofs.TranscriptContents
import Proctor.Proofs.Trimming
import Proctor.Proofs.WireForm
import Proctor.Registration
import Proctor.Registry
import Proctor.Report.Card
import Proctor.Report.Check
import Proctor.Report.Fault
import Proctor.Report.Location
import Proctor.Report.XUnit
import Proctor.Rounding
import Proctor.Sandbox
import Proctor.Session
import Proctor.Session.Relay
import Proctor.Session.Sink
import Proctor.Settings
import Proctor.Settings.Arguments
import Proctor.Sha256
import Proctor.Signature
import Proctor.Slots
import Proctor.Socket.Frame
import Proctor.Socket.Message
import Proctor.Socket.Opening
import Proctor.Text.Blank
import Proctor.Text.Digit
import Proctor.Text.Quoted
import Proctor.Text.Unprintable
import Proctor.Time.Calendar
import Proctor.Time.Instant
import Proctor.Time.Rfc3339
import Proctor.Time.Span
import Proctor.Transcript
import Proctor.Uids
import Proctor.Wire
import Proctor.Xml.Attribute
import Proctor.Xml.Element
import Proctor.Xml.Entity
import Proctor.Xml.Event
import Proctor.Xml.Fault
import Proctor.Xml.Markup
