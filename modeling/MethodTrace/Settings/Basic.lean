import MethodTrace.Call.Filter
import MethodTrace.Record.Row

/-!
# Settings

What a user decides about a trace.
-/

namespace MethodTrace

/-- What happens to a block's return that belongs to the frame below the innermost one. -/
inductive BlockReturns where
  /-- It closes both frames, and is recorded where the call below was made. -/
  | reattribute
  /-- It is dropped. -/
  | drop
  deriving DecidableEq, Repr

/-- The word for a choice. -/
def BlockReturns.word : BlockReturns → String
  | reattribute => "reattribute"
  | drop => "drop"

/-- The choice that a word names. -/
def BlockReturns.ofWord? : String → Option BlockReturns
  | "reattribute" => some reattribute
  | "drop" => some drop
  | _ => none

/-- Which frame is reported as the caller of a call. -/
inductive CallerRule where
  /-- The frame below, hidden or not. -/
  | immediate
  /-- The nearest frame below that is not hidden. -/
  | nearestVisible
  deriving DecidableEq, Repr

/-- The word for a choice. -/
def CallerRule.word : CallerRule → String
  | immediate => "immediate"
  | nearestVisible => "nearest_visible"

/-- The choice that a word names. -/
def CallerRule.ofWord? : String → Option CallerRule
  | "immediate" => some immediate
  | "nearest_visible" => some nearestVisible
  | _ => none

/-- The settings of a trace. -/
structure Settings where
  /-- Record each pair of a call and its caller once, instead of every call and return. -/
  flatten : Bool := true
  filter : Filter := .nothing
  /-- How many open calls there is room for at first. -/
  stackCapacity : Nat := 64
  blockReturns : BlockReturns := .reattribute
  callerRule : CallerRule := .immediate
  /-- Whether calls from the root are recorded too when flattening. -/
  rootCalls : Bool := false
  /-- The entity that stands for the tracer itself in the traced program. -/
  ownEntity : Option String := some "Calltrace::Session"
  deriving DecidableEq, Repr

namespace Settings

/-- The layout of the rows. -/
def layout (s : Settings) : Layout :=
  if s.flatten then .edges else .events

/-- With room for `capacity` open calls at first, at least one. -/
def withStackCapacity (s : Settings) (capacity : Nat) : Settings :=
  { s with stackCapacity := max 1 capacity }

end Settings

end MethodTrace
