import MethodTrace.Script.Types
import MethodTrace.Session.Dispatch
import MethodTrace.Session.Lifecycle

/-!
# Replaying a script

The operations of a script are done to a session one after the other. Notifications reach the session only while
its host delivers them. A script that never starts tracing is traced from its first line.
-/

namespace MethodTrace

/-- What a replay did, in numbers. -/
structure ReplayTotals where
  operations : Nat := 0
  delivered : Nat := 0
  /-- Notifications that came while delivery was off. -/
  undelivered : Nat := 0
  recorded : Nat := 0
  deriving DecidableEq, Repr

/-- Which step of a replay failed. -/
inductive ReplayStep where
  /-- Starting before the first operation. -/
  | starting
  | start (position : Nat)
  | fork (position : Nat)
  | close (position : Nat)
  deriving DecidableEq, Repr

/-- Why a replay ended before its time. -/
structure ReplayError where
  step : ReplayStep
  cause : SessionError
  deriving DecidableEq, Repr

/-- What is said of a failed replay. -/
def ReplayError.message (e : ReplayError) : String :=
  match e.step with
  | .starting => "Failed to start tracing"
  | .start position => "Operation " ++ toString position ++ ": start"
  | .fork position => "Operation " ++ toString position ++ ": fork"
  | .close position => "Operation " ++ toString position ++ ": close"

/-- A replay under way. -/
structure Replay where
  session : Session
  types : TypeTable := {}
  totals : ReplayTotals := {}

namespace Replay

/-- Deliver a notification in its thread, if delivery is on. -/
def deliver (r : Replay) (kind : ScriptEventKind) (event : ScriptEvent) : Replay :=
  if r.session.host.enabled then
    let (types, notification) := r.types.notification kind event
    let thread := event.thread.getD mainThread
    let (session, outcome) :=
      { r.session with host := r.session.host.inThread thread }.deliver notification
    { session := { session with host := session.host.inThread mainThread }
      types
      totals := { r.totals with
        delivered := r.totals.delivered + 1
        recorded := r.totals.recorded + if outcome = .recorded then 1 else 0 } }
  else { r with totals := { r.totals with undelivered := r.totals.undelivered + 1 } }

/-- Go on in a child. What the parent wrote reaches the destination before. -/
def fork (r : Replay) (process : ProcessId) : Replay × Except SessionError Unit :=
  let (session, result) := if r.session.isClosed then (r.session, .ok ()) else r.session.flush
  match result with
  | .error error => ({ r with session }, .error error)
  | .ok () =>
    let session := session.say (.continuesInChild process)
    ({ r with session := { session with host := session.host.inProcess process } }, .ok ())

/-- Do one operation, which has the given position, counted from one. A mark that fails does not end the replay. -/
def step (r : Replay) (position : Nat) (operation : Operation) : Replay × Except ReplayError Unit :=
  let r := { r with totals := { r.totals with operations := r.totals.operations + 1 } }
  match operation with
  | .event kind event => (r.deliver kind event, .ok ())
  | .start =>
    let (session, result) := r.session.start
    ({ r with session }, result.mapError fun cause => ⟨.start position, cause⟩)
  | .stop => ({ r with session := r.session.stop }, .ok ())
  | .mark label unwinding =>
    let (session, result) := r.session.mark label unwinding
    let session := match result with
      | .ok () => session
      | .error error => session.say (.markFailed position error)
    ({ r with session }, .ok ())
  | .fork process =>
    let (r, result) := r.fork process
    (r, result.mapError fun cause => ⟨.fork position, cause⟩)
  | .close =>
    let (session, result) := r.session.close
    ({ r with session }, result.mapError fun cause => ⟨.close position, cause⟩)

/-- Do operations from a position on, up to the first that fails. -/
def steps (r : Replay) (position : Nat) : List Operation → Replay × Except ReplayError Unit
  | [] => (r, .ok ())
  | operation :: rest =>
    match r.step position operation with
    | (r, .ok ()) => r.steps (position + 1) rest
    | (r, .error error) => (r, .error error)

/-- Replay a script on a session whose types are partly known. -/
def run (session : Session) (types : TypeTable) (script : List Operation) : Replay × Except ReplayError Unit :=
  let (session, started) := if script.contains .start then (session, .ok ()) else session.start
  match started with
  | .error cause => ({ session, types }, .error ⟨.starting, cause⟩)
  | .ok () => steps { session, types } 1 script

end Replay

end MethodTrace
