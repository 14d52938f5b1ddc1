import MethodTrace.Host.Basic

/-!
# Ownership

A forked child inherits a trace that it must not touch. The owner's process number is kept, and once any other is
seen the trace counts as inherited for good, also if the old number comes back.
-/

namespace MethodTrace

/-- Which process owns a trace, and whether another one was seen. -/
structure Ownership where
  owner : ProcessId
  broken : Bool := false
  deriving DecidableEq, Repr

/-- Where the tracer runs. -/
inductive Standing where
  | owner
  | child
  deriving DecidableEq, Repr

/-- Compare the current process with the owner. -/
def Ownership.check (o : Ownership) (current : ProcessId) : Ownership × Standing :=
  if o.broken ∨ current ≠ o.owner then ({ o with broken := true }, .child) else (o, .owner)

end MethodTrace
