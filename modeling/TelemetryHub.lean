import TelemetryHub.Clock
import TelemetryHub.Command.Basic
import TelemetryHub.Command.Reader
import TelemetryHub.Config
import TelemetryHub.Failure
import TelemetryHub.Files
import TelemetryHub.Gate.Apply
import TelemetryHub.Gate.Basic
import TelemetryHub.Gate.Registry
import TelemetryHub.Host.Converse
import TelemetryHub.Host.Serve
import TelemetryHub.Host.System
import TelemetryHub.Json.Basic
import TelemetryHub.Json.Fault
import TelemetryHub.Json.Numeral
import TelemetryHub.Json.Printer
import TelemetryHub.Json.Reader
import TelemetryHub.Json.Scan
import TelemetryHub.Json.Skip
import TelemetryHub.Launch
import TelemetryHub.Log
import TelemetryHub.Main
import TelemetryHub.Net.Connection
import TelemetryHub.Net.Inbound
import TelemetryHub.Net.Readiness
import TelemetryHub.Net.Roster
import TelemetryHub.Number.Binary64
import TelemetryHub.Number.Shortest
import TelemetryHub.Options.Basic
import TelemetryHub.Options.Programs
import TelemetryHub.Preflight
import TelemetryHub.Relay
import TelemetryHub.Report
import TelemetryHub.Server.Basic
import TelemetryHub.Server.Commands
import TelemetryHub.Server.Loop
import TelemetryHub.Session.Run
import TelemetryHub.Session.Sampler
import TelemetryHub.Source
import TelemetryHub.Telemetry
import TelemetryHub.Text.Basic
import TelemetryHub.Text.Quoted
import TelemetryHub.Text.Utf8
import TelemetryHub.Proofs.Json.Grammar
import TelemetryHub.Proofs.Json.Strings
import TelemetryHub.Proofs.Json.Numerals
import TelemetryHub.Proofs.Json.Skipping
import TelemetryHub.Proofs.Json.Keys
import TelemetryHub.Proofs.Json.Documents
import TelemetryHub.Proofs.Json.Printing
import TelemetryHub.Proofs.Json.OneLine
import TelemetryHub.Proofs.Log.RoundTrip
import TelemetryHub.Proofs.Command.Grammar
import TelemetryHub.Proofs.Command.Reading
import TelemetryHub.Proofs.Command.Parsing
import TelemetryHub.Proofs.Command.WireForm
import TelemetryHub.Proofs.Net.Sockets
import TelemetryHub.Proofs.Net.Connections
import TelemetryHub.Proofs.Net.Lifecycle
import TelemetryHub.Proofs.Server.Steps
import TelemetryHub.Proofs.Server.Clients
import TelemetryHub.Proofs.Server.Coherence
import TelemetryHub.Proofs.Server.Transitions
import TelemetryHub.Proofs.Server.Isolation
import TelemetryHub.Proofs.Server.Logging
import TelemetryHub.Proofs.Server.Delivery
import TelemetryHub.Proofs.Json.Extent
import TelemetryHub.Proofs.Text.Utf8
import TelemetryHub.Proofs.Source.Loading
import TelemetryHub.Proofs.Source.Schedule
import TelemetryHub.Proofs.Command.Documents
import TelemetryHub.Proofs.Gate.History
import TelemetryHub.Proofs.Gate.Counting
import TelemetryHub.Proofs.Server.Refusals
import TelemetryHub.Proofs.Server.Dispatching
import TelemetryHub.Proofs.Server.Replay
import TelemetryHub.Proofs.Gate.Backtraces
import TelemetryHub.Proofs.Command.Recovery
import TelemetryHub.Proofs.Server.Operations
import TelemetryHub.Proofs.Server.Shutdown
import TelemetryHub.Proofs.Server.Turns
import TelemetryHub.Proofs.Server.Processing
import TelemetryHub.Proofs.Server.Audit
import TelemetryHub.Proofs.Server.Frames
import TelemetryHub.Proofs.Server.Seats
import TelemetryHub.Proofs.Server.Streams
import TelemetryHub.Proofs.Server.Texts
import TelemetryHub.Proofs.Number.Rounding
import TelemetryHub.Proofs.Number.Decimals
import TelemetryHub.Proofs.Json.Doubles
import TelemetryHub.Proofs.Json.Rereading
import TelemetryHub.Proofs.Log.Legible
import TelemetryHub.Proofs.Server.Legible
import TelemetryHub.Proofs.Json.Cutting
import TelemetryHub.Proofs.Text.Cutting
import TelemetryHub.Proofs.Command.Cutting
import TelemetryHub.Proofs.Server.LongCommands
import TelemetryHub.Proofs.Report.Figures
import TelemetryHub.Proofs.Report.Recovery
import TelemetryHub.Proofs.Text.Lines
import TelemetryHub.Proofs.Report.Acceptance
import TelemetryHub.Proofs.Report.Composition
import TelemetryHub.Proofs.Session.Course
import TelemetryHub.Proofs.Server.Sessions
import TelemetryHub.Proofs.Server.Lifecycle
import TelemetryHub.Proofs.Server.Channels
import TelemetryHub.Proofs.Relay.Course
import TelemetryHub.Proofs.Relay.Sentinel
import TelemetryHub.Proofs.Relay.Transparency
import TelemetryHub.Proofs.Server.Emitting
import TelemetryHub.Proofs.Log.Refusals
