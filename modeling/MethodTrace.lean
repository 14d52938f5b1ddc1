import MethodTrace.Call.Event
import MethodTrace.Call.Filter
import MethodTrace.Call.Stack
import MethodTrace.CommandLine.Arguments
import MethodTrace.CommandLine.Files
import MethodTrace.CommandLine.Run
import MethodTrace.CommandLine.Summary
import MethodTrace.Fingerprint
import MethodTrace.Host.Basic
import MethodTrace.Host.Ownership
import MethodTrace.Json.Basic
import MethodTrace.Json.Reader
import MethodTrace.Main
import MethodTrace.Notification
import MethodTrace.Object.Basic
import MethodTrace.Object.Naming
import MethodTrace.Output.Buffered
import MethodTrace.Output.Destination
import MethodTrace.Proofs.Actions
import MethodTrace.Proofs.Hearing
import MethodTrace.Proofs.LiveFrames
import MethodTrace.Proofs.Steps
import MethodTrace.Proofs.Writing
import MethodTrace.Record.Row
import MethodTrace.Record.Seen
import MethodTrace.Record.Writer
import MethodTrace.Replay
import MethodTrace.Script.Lines
import MethodTrace.Script.Operation
import MethodTrace.Script.Reading
import MethodTrace.Script.Types
import MethodTrace.Session.Counters
import MethodTrace.Session.Diagnostic
import MethodTrace.Session.Dispatch
import MethodTrace.Session.Error
import MethodTrace.Session.Lifecycle
import MethodTrace.Session.Scope
import MethodTrace.Session.State
import MethodTrace.Settings.Basic
import MethodTrace.Settings.Document
import MethodTrace.Text.Blank
import MethodTrace.Text.Digits
import MethodTrace.Text.Parts
import MethodTrace.Text.Quoted
import MethodTrace.Text.Unseen
import MethodTrace.Text.Utf8
import MethodTrace.Toml.Basic
import MethodTrace.Toml.Reader
import MethodTrace.Toml.Scalar
import MethodTrace.Proofs.Stream
import MethodTrace.Proofs.Segments
import MethodTrace.Proofs.CallForest
import MethodTrace.Proofs.LostRows
import MethodTrace.Proofs.EventRows
import MethodTrace.Proofs.Balance
import MethodTrace.Proofs.Lifecycle
import MethodTrace.Proofs.ForkedChild
import MethodTrace.Proofs.InheritedBuffer
import MethodTrace.Proofs.Outcomes
import MethodTrace.Proofs.PendingCalls
import MethodTrace.Proofs.EdgeCallers
import MethodTrace.Proofs.Nesting
import MethodTrace.Proofs.FreshSegments
import MethodTrace.Proofs.Decoding
import MethodTrace.Proofs.Framing
import MethodTrace.Proofs.ForeignThreads
import MethodTrace.Proofs.HiddenCalls
import MethodTrace.Proofs.Lines
import MethodTrace.Proofs.Filtering
import MethodTrace.Proofs.Accounts
import MethodTrace.Proofs.Release
import MethodTrace.Proofs.Replays
import MethodTrace.Proofs.ForkedReplays
import MethodTrace.Proofs.StackAsList
import MethodTrace.Proofs.Finalizing
import MethodTrace.Proofs.Scopes
import MethodTrace.Proofs.Returns
import MethodTrace.Proofs.Ignoring
import MethodTrace.Proofs.Marks
import MethodTrace.Proofs.Opening
import MethodTrace.Proofs.VisibleCallers
import MethodTrace.Proofs.Singletons
import MethodTrace.Proofs.TypeNames
import MethodTrace.Proofs.NameQueries
import MethodTrace.Proofs.FilterExpressions
import MethodTrace.Proofs.ScriptLines
import MethodTrace.Proofs.OneByteApart
import MethodTrace.Proofs.SameMethod
import MethodTrace.Proofs.StackGrowth
import MethodTrace.Proofs.TypeIdentity
import MethodTrace.Json.Writer
import MethodTrace.Proofs.JsonSpellings
import MethodTrace.Script.Writing
import MethodTrace.Proofs.ScriptRoundTrip
