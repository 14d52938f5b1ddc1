import MethodTrace.Output.Destination

/-!
# What can go wrong with a session
-/

namespace MethodTrace

/-- Why an operation of a session failed. -/
inductive SessionError where
  /-- The destination could not be made. -/
  | unavailable (path : String)
  /-- The header could not be written. -/
  | header (fault : WriteFault)
  /-- The session was closed before. -/
  | closed
  /-- A write failed. -/
  | output (fault : WriteFault)
  deriving DecidableEq, Repr

namespace SessionError

/-- What is said of an error. -/
def message : SessionError → String
  | unavailable path => "Output sink unavailable: " ++ path
  | header fault => "Failed to write trace header: " ++ fault.message
  | closed => "Tracer session is closed"
  | output fault => "IO error: " ++ fault.message

/-- The fault behind an error. -/
def fault? : SessionError → Option WriteFault
  | header fault | output fault => some fault
  | unavailable _ | closed => none

/-- The messages of an error and of what is behind it, outermost first. -/
def chain (error : SessionError) : List String :=
  error.message :: (error.fault?.map WriteFault.message).toList

end SessionError

end MethodTrace
