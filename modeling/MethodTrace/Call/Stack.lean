import MethodTrace.Call.Event

/-!
# The stack of open calls

The tracer's own picture of the traced program's stack. Frames live in slots; a popped slot is written again by
a later push, and the slots never shrink. A stack may have a root: a frame at the bottom that is never popped,
so that the outermost call has a caller too.
-/

namespace MethodTrace

/-- One open call. -/
structure Frame where
  event : Event
  /-- Whether the call leaves no record. -/
  hidden : Bool
  /-- The slot of the frame below. -/
  caller : Option Nat
  isRoot : Bool
  deriving Repr

/-- The frame under every call. -/
def Frame.root : Frame where
  event := .root
  hidden := false
  caller := none
  isRoot := true

/-- The open calls, innermost at `top`. Slots above the top hold frames that were popped. -/
structure CallStack where
  slots : Array Frame
  top : Option Nat
  /-- How many slots there is room for before the stack has to grow. -/
  capacity : Nat
  rooted : Bool

/-- What a stack cannot do. -/
inductive StackError where
  /-- There is no frame to pop. -/
  | underflow
  /-- No open call has the slot. -/
  | notLive (slot : Nat)
  /-- More room is asked for than memory has addresses. -/
  | tooLarge
  deriving DecidableEq, Repr

/-- What is said of a stack error. -/
def StackError.message : StackError → String
  | underflow => "Shadow stack underflow: no frame and no root sentinel"
  | notLive slot => "frame " ++ toString slot ++ " is outside the live shadow stack"
  | tooLarge => "capacity overflow"

namespace CallStack

/-- A stack without frames, and room for `capacity` of them, at least one. -/
def empty (capacity : Nat) : CallStack where
  slots := #[]
  top := none
  capacity := max 1 capacity
  rooted := false

/-- The stack with nothing but the root. -/
def seedRoot (s : CallStack) : CallStack :=
  { s with
    slots := if s.slots.isEmpty then #[.root] else s.slots.setIfInBounds 0 .root
    top := some 0 }

/-- A stack with a root, and room for `capacity` frames, at least one. -/
def withRoot (capacity : Nat) : CallStack :=
  { empty capacity with rooted := true }.seedRoot

/-- The bytes that a frame takes up. -/
def frameSize : Nat := 88

/-- How many frames a stack may be asked to have room for: together they take up at most half of a 64-bit address
space, less the last word of it. -/
def maxCapacity : Nat := 0x7FFFFFFFFFFFFFF8 / frameSize

/-- A stack with or without a root, and room for `capacity` frames, at least one. -/
def create (rooted : Bool) (capacity : Nat) : Except StackError CallStack :=
  if maxCapacity < capacity then .error .tooLarge
  else .ok (if rooted then withRoot capacity else empty capacity)

/-- The slot for the next frame. -/
def nextSlot (s : CallStack) : Nat :=
  match s.top with
  | none => 0
  | some top => top + 1

/-- Room for one more slot: the capacity doubles when all of it is used. -/
def grownCapacity (s : CallStack) : Nat :=
  if s.slots.size < s.capacity then s.capacity else s.capacity + max 1 s.capacity

/-- Open a call. Returns its slot. -/
def push (s : CallStack) (event : Event) (hidden : Bool) : CallStack × Nat :=
  let slot := s.nextSlot
  let frame : Frame := { event, hidden, caller := s.top, isRoot := false }
  if slot < s.slots.size then
    ({ s with slots := s.slots.setIfInBounds slot frame, top := some slot }, slot)
  else
    ({ s with slots := s.slots.push frame, top := some slot, capacity := s.grownCapacity }, slot)

/-- The innermost frame. -/
def peek (s : CallStack) : Option Frame :=
  s.top.bind (s.slots[·]?)

/-- Close the innermost call. The root is returned but stays. -/
def pop (s : CallStack) : CallStack × Except StackError Frame :=
  match s.top, s.peek with
  | some top, some frame =>
    if frame.isRoot then (s, .ok frame)
    else ({ s with top := if top = 0 then none else some (top - 1) }, .ok frame)
  | _, _ => (s, .error .underflow)

/-- Whether an open call has the slot. -/
def isLive (s : CallStack) (slot : Nat) : Bool :=
  match s.top with
  | none => false
  | some top => slot ≤ top

/-- The frame in a slot. -/
def frame (s : CallStack) (slot : Nat) : Except StackError Frame :=
  match s.slots[slot]? with
  | some frame => if s.isLive slot then .ok frame else .error (.notLive slot)
  | none => .error (.notLive slot)

/-- The frame in the slot below. -/
def below (s : CallStack) (slot : Nat) : Except StackError (Option Frame) :=
  if s.isLive slot then .ok (if slot = 0 then none else s.slots[slot - 1]?)
  else .error (.notLive slot)

/-- The first frame from the caller of a frame in `slot` on that is not hidden, or is the root. Callers are
always further down. -/
def visibleFrom (s : CallStack) (slot : Nat) (caller : Option Nat) : Option Frame :=
  match caller with
  | none => none
  | some next =>
    if next < slot then
      match s.slots[next]? with
      | none => none
      | some frame => if !frame.hidden || frame.isRoot then some frame else s.visibleFrom next frame.caller
    else none
termination_by slot

/-- The nearest caller of the frame in a slot that is not hidden, or the root. -/
def visibleCaller (s : CallStack) (slot : Nat) : Except StackError (Option Frame) :=
  (s.frame slot).map fun frame => s.visibleFrom slot frame.caller

/-- How many calls are open, the root not counted. -/
def depth (s : CallStack) : Nat :=
  match s.top with
  | none => 0
  | some top => if s.rooted then top else top + 1

/-- Close every call. -/
def reset (s : CallStack) : CallStack :=
  if s.rooted then s.seedRoot else { s with top := none }

end CallStack

end MethodTrace
