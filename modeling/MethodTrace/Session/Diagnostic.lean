import MethodTrace.Host.Basic
import MethodTrace.Session.Error
import MethodTrace.Text.Quoted

/-!
# Diagnostics

What a session says about its own work, one line at a time.
-/

namespace MethodTrace

/-- How much a diagnostic matters. -/
inductive Severity where
  | trace
  | debug
  | warn
  deriving DecidableEq, Repr

/-- The word for a severity. -/
def Severity.word : Severity → String
  | trace => "TRACE"
  | debug => "DEBUG"
  | warn => "WARN"

/-- Something worth saying. -/
inductive Diagnostic where
  | sessionOpen (label : String) (flatten : Bool)
  | tracingStarted
  | tracingStopped
  | startIgnored
  | forkDetected (owner current : ProcessId)
  | unmatchedReturn (entity method : String)
  | recordFailed (fault : WriteFault)
  | inheritedOutputReleased
  | sessionClosed
  | closeFailed (error : SessionError)
  | markFailed (position : Nat) (error : SessionError)
  | continuesInChild (process : ProcessId)
  deriving DecidableEq, Repr

namespace Diagnostic

/-- How much a diagnostic matters. -/
def severity : Diagnostic → Severity
  | unmatchedReturn _ _ => .trace
  | forkDetected _ _ | recordFailed _ | closeFailed _ | markFailed _ _ => .warn
  | sessionOpen _ _ | tracingStarted | tracingStopped | startIgnored | inheritedOutputReleased
  | sessionClosed | continuesInChild _ => .debug

/-- What is said. -/
def message : Diagnostic → String
  | sessionOpen _ _ => "calltrace: session open"
  | tracingStarted => "calltrace: tracing started"
  | tracingStopped => "calltrace: tracing stopped"
  | startIgnored => "calltrace: start_trace ignored in forked child"
  | forkDetected _ _ => "calltrace: fork detected, disabling tracing in child"
  | unmatchedReturn _ _ => "calltrace: dropping unmatched return"
  | recordFailed _ => "calltrace: failed to write record"
  | inheritedOutputReleased => "calltrace: releasing inherited sink in forked child"
  | sessionClosed => "calltrace: session closed"
  | closeFailed _ => "calltrace: failed to close session on drop"
  | markFailed _ _ => "calltrace: mark failed"
  | continuesInChild _ => "calltrace: replay continues in forked child"

/-- The details, by name. -/
def details : Diagnostic → List (String × String)
  | sessionOpen label flatten => [("sink", Text.quoted label), ("flatten", if flatten then "true" else "false")]
  | forkDetected owner current =>
    [("owner_pid", toString owner.toNat), ("pid", toString current.toNat)]
  | unmatchedReturn entity method => [("entity", Text.quoted entity), ("method", Text.quoted method)]
  | recordFailed fault => [("error", fault.message)]
  | closeFailed error => [("error", error.message)]
  | markFailed position error => [("op", toString position), ("error", error.message)]
  | continuesInChild process => [("pid", toString process.toNat)]
  | tracingStarted | tracingStopped | startIgnored | inheritedOutputReleased | sessionClosed => []

/-- A diagnostic as a line. -/
def line (d : Diagnostic) : String :=
  String.join (d.severity.word :: " " :: d.message ::
    d.details.map fun detail => " " ++ detail.1 ++ "=" ++ detail.2)

end Diagnostic

end MethodTrace
