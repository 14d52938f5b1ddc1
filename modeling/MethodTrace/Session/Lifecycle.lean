import MethodTrace.Session.State

/-!
# The life of a session

Opening, starting and stopping, marks, flushing and closing. A closed session refuses everything but another close.
A session that finds itself in a forked child keeps its hands off the output, except when told to flush.
-/

namespace MethodTrace

/-- Why a session could not be opened. -/
inductive OpenError where
  /-- The header could not be written. -/
  | header (fault : WriteFault)
  /-- There is no room for the stack that the settings ask for. -/
  | stack (error : StackError)
  deriving DecidableEq, Repr

/-- A session that could not be opened: why, and what its destination and its host are left as. -/
structure OpenFailure where
  error : OpenError
  destination : Destination
  host : Host

namespace Session

/-- Open a session. The header is written and flushed before anything else, also before the stack is made. -/
def create (settings : Settings) (output : Output) (host : Host) : Except OpenFailure Session :=
  let (output, written) := output.write settings.layout.header.toUTF8
  let (output, result) := match written with
    | .ok () => output.flush
    | .error fault => (output, .error fault)
  match result with
  | .error fault => .error ⟨.header fault, output.release, host⟩
  | .ok () =>
    match CallStack.create true settings.stackCapacity with
    | .error error => .error ⟨.stack error, output.release, host⟩
    | .ok stack =>
      .ok {
        settings
        host
        stack
        channel := .held output
        ownership := { owner := host.process }
        ownerThread := host.thread
        log := #[.sessionOpen output.label settings.flatten] }

/-- Start tracing. In a forked child nothing happens. -/
def start (s : Session) : Session × Except SessionError Unit :=
  match s.phase with
  | .closed => (s, .error .closed)
  | .tracing => (s, .ok ())
  | .idle =>
    match s.checkOwner with
    | (s, .child) => (s.say .startIgnored, .ok ())
    | (s, .owner) => ((s.enable.inPhase .tracing).say .tracingStarted, .ok ())

/-- Stop tracing, if tracing. -/
def stop (s : Session) : Session :=
  if s.isTracing then ((s.disable.inPhase .idle).unwind.forgetRows).say .tracingStopped else s

/-- Find out whether this is the owning process and thread. -/
def checkContext (s : Session) : Session × Bool :=
  match s.checkOwner with
  | (s, .child) => (s, false)
  | (s, .owner) => (s, s.host.thread == s.ownerThread)

/-- Write a mark, which begins a new segment. With `unwinding`, the open calls are closed as well. In a forked child
or another thread nothing happens. -/
def mark (s : Session) (label : String) (unwinding : Bool) : Session × Except SessionError Unit :=
  match s.phase with
  | .closed => (s, .error .closed)
  | .idle | .tracing =>
    match s.checkContext with
    | (s, false) => (s, .ok ())
    | (s, true) =>
      match s.write (Row.ofMark label) with
      | (s, .error fault) => (s, .error (.output fault))
      | (s, .ok ()) => (if unwinding then s.forgetRows.unwind else s.forgetRows, .ok ())

/-- Pass everything buffered on to the destination. -/
def flush (s : Session) : Session × Except SessionError Unit :=
  match s.channel.flush with
  | (channel, none) => ({ s with channel }, .error .closed)
  | (channel, some result) => ({ s with channel }, result.mapError .output)

/-- Let go of the output for good: after a flush in the owning process, without the buffer in a forked child. -/
def letGo (s : Session) : Session × Except SessionError Unit :=
  match s.checkOwner with
  | (s, .child) =>
    ({ s with channel := s.channel.abandon }.say .inheritedOutputReleased |>.say .sessionClosed, .ok ())
  | (s, .owner) =>
    match s.channel.close with
    | (channel, .error fault) => ({ s with channel }, .error (.output fault))
    | (channel, .ok ()) => ({ s with channel }.say .sessionClosed, .ok ())

/-- Close the session, if it is not closed yet. -/
def close (s : Session) : Session × Except SessionError Unit :=
  match s.phase with
  | .closed => (s, .ok ())
  | .idle => (s.inPhase .closed).unwind.forgetRows.letGo
  | .tracing => (s.disable.inPhase .closed).unwind.forgetRows.letGo

/-- Take note that the host is shutting down. -/
def beginFinalize (s : Session) : Session :=
  { s with finalizing := true }

/-- End the session, closed before or not. While the host shuts down, delivery is switched off and the output is
let go without its buffer. -/
def drop (s : Session) : Session :=
  if s.finalizing then
    let s := if s.isClosed then s else s.disable.inPhase .closed
    { s with channel := s.channel.abandon }
  else
    match s.close with
    | (s, .ok ()) => s
    | (s, .error error) => s.say (.closeFailed error)

end Session

end MethodTrace
