import MethodTrace.Session.Dispatch
import MethodTrace.Session.Lifecycle

/-!
# Runs of a session

Everything that can be done to a session, as data, so that a run is a list. Tracing can be confined to a scope: it
starts before the scope's actions and stops after them, however they end.
-/

namespace MethodTrace

/-- Something done to a session, or to the host and destination under it. -/
inductive Action where
  | start
  | stop
  | mark (label : String) (unwinding : Bool)
  | flush
  | close
  | beginFinalize
  | deliver (n : Notification)
  /-- Nothing is done; the state is looked at. -/
  | look
  | enterProcess (process : ProcessId)
  | enterThread (thread : ThreadId)
  | setFaults (faults : Faults)
  /-- Trace the body, which then returns or panics. -/
  | scoped (body : List Action) (panic : Option String)

/-- How a scope ended. -/
inductive ScopeEnd where
  /-- The scope could not be entered. -/
  | refused (error : SessionError)
  /-- The body returned whether the session was still tracing. -/
  | returned (tracing : Bool)
  /-- The body panicked. -/
  | panicked (text : String)
  deriving DecidableEq, Repr

/-- What an action answers. -/
inductive Answer where
  | result (result : Except SessionError Unit)
  | outcome (outcome : Outcome)
  /-- The answers of the body, each with the state after it, and how the scope ended. -/
  | scope (inner : List (Answer × Session)) (ending : ScopeEnd)

namespace Session

mutual

/-- Do one thing. -/
def perform (s : Session) : Action → Session × Answer
  | .start => s.start.map id .result
  | .stop => (s.stop, .result (.ok ()))
  | .mark label unwinding => (s.mark label unwinding).map id .result
  | .flush => s.flush.map id .result
  | .close => s.close.map id .result
  | .beginFinalize => (s.beginFinalize, .result (.ok ()))
  | .deliver n => (s.deliver n).map id .outcome
  | .look => (s, .result (.ok ()))
  | .enterProcess process => ({ s with host := s.host.inProcess process }, .result (.ok ()))
  | .enterThread thread => ({ s with host := s.host.inThread thread }, .result (.ok ()))
  | .setFaults faults => ({ s with channel := s.channel.setFaults faults }, .result (.ok ()))
  | .scoped body panic =>
    match s.start with
    | (s, .error error) => (s, .scope [] (.refused error))
    | (s, .ok ()) =>
      let (s, inner) := s.performAll body
      let ending := match panic with
        | some text => ScopeEnd.panicked text
        | none => ScopeEnd.returned s.isTracing
      (s.stop, .scope inner ending)

/-- Do one thing after the other. Returns each answer with the state after it. -/
def performAll (s : Session) : List Action → Session × List (Answer × Session)
  | [] => (s, [])
  | action :: rest =>
    let (next, answer) := s.perform action
    let (last, answers) := next.performAll rest
    (last, (answer, next) :: answers)

end

end Session

end MethodTrace
