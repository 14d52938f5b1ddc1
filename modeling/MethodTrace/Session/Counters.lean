/-!
# Counters

What a session did with its notifications, in numbers.
-/

namespace MethodTrace

/-- Why a notification is ignored. -/
inductive IgnoreReason where
  | notTracing
  | finalizing
  | forkedChild
  | foreignThread
  | tracerInternal
  | unclassified
  deriving DecidableEq, Repr

namespace IgnoreReason

/-- Every reason, in the order in which counts are reported. -/
def all : List IgnoreReason :=
  [notTracing, finalizing, forkedChild, foreignThread, tracerInternal, unclassified]

/-- The words for a reason. -/
def words : IgnoreReason → String
  | notTracing => "not tracing"
  | finalizing => "finalizing"
  | forkedChild => "forked child"
  | foreignThread => "foreign thread"
  | tracerInternal => "tracer internal"
  | unclassified => "unclassified"

end IgnoreReason

/-- What became of a notification. -/
inductive Outcome where
  | ignored (reason : IgnoreReason)
  /-- A call that the filter hides. -/
  | suppressed
  /-- A call that has no row. -/
  | tracked
  | recorded
  /-- A call whose row was written before. -/
  | duplicate
  /-- A return that has no row. -/
  | popped
  /-- A return that belongs to no open call. -/
  | unmatched
  | writeFailed
  deriving DecidableEq, Repr

/-- How many notifications were ignored, by reason. -/
structure IgnoreCounts where
  notTracing : Nat := 0
  finalizing : Nat := 0
  forkedChild : Nat := 0
  foreignThread : Nat := 0
  tracerInternal : Nat := 0
  unclassified : Nat := 0
  deriving DecidableEq, Repr

namespace IgnoreCounts

/-- The count for a reason. -/
def count (c : IgnoreCounts) : IgnoreReason → Nat
  | .notTracing => c.notTracing
  | .finalizing => c.finalizing
  | .forkedChild => c.forkedChild
  | .foreignThread => c.foreignThread
  | .tracerInternal => c.tracerInternal
  | .unclassified => c.unclassified

/-- One more for a reason. -/
def add (c : IgnoreCounts) : IgnoreReason → IgnoreCounts
  | .notTracing => { c with notTracing := c.notTracing + 1 }
  | .finalizing => { c with finalizing := c.finalizing + 1 }
  | .forkedChild => { c with forkedChild := c.forkedChild + 1 }
  | .foreignThread => { c with foreignThread := c.foreignThread + 1 }
  | .tracerInternal => { c with tracerInternal := c.tracerInternal + 1 }
  | .unclassified => { c with unclassified := c.unclassified + 1 }

@[simp] theorem count_add (c : IgnoreCounts) (added asked : IgnoreReason) :
    (c.add added).count asked = c.count asked + if asked = added then 1 else 0 := by
  cases added <;> cases asked <;> rfl

/-- The count for all reasons together. -/
def total (c : IgnoreCounts) : Nat :=
  c.notTracing + c.finalizing + c.forkedChild + c.foreignThread + c.tracerInternal + c.unclassified

@[simp] theorem total_add (c : IgnoreCounts) (reason : IgnoreReason) : (c.add reason).total = c.total + 1 := by
  cases reason <;> simp only [add, total] <;> omega

end IgnoreCounts

/-- The counters of a session. -/
structure Counters where
  /-- Notifications from the owning process and thread. -/
  events : Nat := 0
  calls : Nat := 0
  returns : Nat := 0
  records : Nat := 0
  duplicates : Nat := 0
  suppressed : Nat := 0
  unmatchedReturns : Nat := 0
  blockReturns : Nat := 0
  writeErrors : Nat := 0
  maxDepth : Nat := 0
  ignored : IgnoreCounts := {}
  deriving DecidableEq, Repr

namespace Counters

/-- Count an ignored notification. -/
def ignore (c : Counters) (reason : IgnoreReason) : Counters :=
  { c with ignored := c.ignored.add reason }

/-- Take note of a depth of the stack. -/
def observeDepth (c : Counters) (depth : Nat) : Counters :=
  { c with maxDepth := max c.maxDepth depth }

end Counters

end MethodTrace
