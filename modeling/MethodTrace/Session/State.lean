import MethodTrace.Host.Ownership
import MethodTrace.Output.Buffered
import MethodTrace.Record.Seen
import MethodTrace.Session.Counters
import MethodTrace.Session.Diagnostic
import MethodTrace.Settings.Basic

/-!
# The state of a session

A session owns its output and its host's delivery switch. It is open, tracing or closed. The operations are built
from the small updates below, each of which touches one part of the state.
-/

namespace MethodTrace

/-- Where a session stands in its life. -/
inductive Phase where
  | closed
  | idle
  | tracing
  deriving DecidableEq, Repr

/-- The state of a session. -/
structure Session where
  settings : Settings
  host : Host
  phase : Phase := .idle
  stack : CallStack
  seen : SeenRows := {}
  channel : Channel
  ownership : Ownership
  ownerThread : ThreadId
  counters : Counters := {}
  /-- Whether the host is shutting down. -/
  finalizing : Bool := false
  /-- What the session said, first to last. -/
  log : Array Diagnostic := #[]

namespace Session

/-! ### Looking at a session -/

/-- Whether the session is tracing. -/
def isTracing (s : Session) : Bool :=
  s.phase == .tracing

/-- Whether the session is closed. -/
def isClosed (s : Session) : Bool :=
  s.phase == .closed

/-- How many calls are open. -/
def depth (s : Session) : Nat :=
  s.stack.depth

/-- Where the trace goes, whether it is still held or not. -/
def destination (s : Session) : Destination :=
  s.channel.destination

/-! ### Small updates -/

/-- Say something. -/
def say (s : Session) (d : Diagnostic) : Session :=
  { s with log := s.log.push d }

/-- Move to another phase. -/
def inPhase (s : Session) (phase : Phase) : Session :=
  { s with phase }

/-- Switch delivery on. -/
def enable (s : Session) : Session :=
  { s with host := s.host.enable }

/-- Switch delivery off. -/
def disable (s : Session) : Session :=
  { s with host := s.host.disable }

/-- Forget which rows were written: a new segment begins. -/
def forgetRows (s : Session) : Session :=
  { s with seen := {} }

/-- Close every open call. -/
def unwind (s : Session) : Session :=
  { s with stack := s.stack.reset }

/-- Change the counters. -/
def count (s : Session) (change : Counters → Counters) : Session :=
  { s with counters := change s.counters }

/-- Find out whether this is the owning process. Another process is remembered. -/
def checkOwner (s : Session) : Session × Standing :=
  let (ownership, standing) := s.ownership.check s.host.process
  ({ s with ownership }, standing)

/-- Write a line to the output. -/
def write (s : Session) (line : String) : Session × Except WriteFault Unit :=
  let (channel, result) := s.channel.write line.toUTF8
  ({ s with channel }, result)

end Session

end MethodTrace
