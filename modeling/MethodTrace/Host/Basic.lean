/-!
# Hosts

What a tracer can do to its host and ask of it: switch the delivery of notifications on and off, and learn which
process and which thread it runs in.
-/

namespace MethodTrace

/-- The number of a process. -/
abbrev ProcessId := UInt32

/-- The number of a thread. -/
abbrev ThreadId := UInt64

/-- The thread on which a program begins. -/
def mainThread : ThreadId := 1

/-- The state of a host. The two counts say how often delivery was switched on and off. -/
structure Host where
  enabled : Bool := false
  enables : Nat := 0
  disables : Nat := 0
  process : ProcessId
  thread : ThreadId := mainThread
  deriving DecidableEq, Repr

namespace Host

/-- Switch delivery on. -/
def enable (h : Host) : Host :=
  { h with enabled := true, enables := h.enables + 1 }

/-- Switch delivery off. -/
def disable (h : Host) : Host :=
  { h with enabled := false, disables := h.disables + 1 }

/-- Go on in another process. -/
def inProcess (h : Host) (process : ProcessId) : Host :=
  { h with process }

/-- Go on in another thread. -/
def inThread (h : Host) (thread : ThreadId) : Host :=
  { h with thread }

end Host

end MethodTrace
