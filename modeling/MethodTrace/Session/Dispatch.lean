import MethodTrace.Session.State

/-!
# What a session does with a notification

A notification is ignored unless the session is tracing in its owning process and thread and the call is none of
the tracer's own. A call is pushed on the stack and recorded as the settings say. A return closes the innermost
call if it is of the same method; a block's return may also close the call below. Methods are named by the rule
`ownerOf`; a session that asked a `NameCache` would do the same, as types have numbers of their own
(`Session.deliverThrough_after`).
-/

namespace MethodTrace
namespace Session

/-- Ignore a notification. -/
def ignore (s : Session) (reason : IgnoreReason) : Session × Outcome :=
  (s.count (·.ignore reason), .ignored reason)

/-- Write the row of a call or return. Only the first failure is worth a word. -/
def record (s : Session) (row : String) : Session × Outcome :=
  match s.write row with
  | (s, .ok ()) => (s.count fun c => { c with records := c.records + 1 }, .recorded)
  | (s, .error fault) =>
    let s := s.count fun c => { c with writeErrors := c.writeErrors + 1 }
    (if s.counters.writeErrors = 1 then s.say (.recordFailed fault) else s, .writeFailed)

/-- The frame that the settings name as the caller of the call in a slot. -/
def callerOf (s : Session) (slot : Nat) : Option Frame :=
  let found := match s.settings.callerRule with
    | .immediate => s.stack.below slot
    | .nearestVisible => s.stack.visibleCaller slot
  found.toOption.join

/-- Write the row of a call and its caller, unless it was written before in this segment. -/
def recordEdge (s : Session) (row : String) : Session × Outcome :=
  match s.seen.meet row.toUTF8 with
  | (seen, true) => { s with seen }.record row
  | (seen, false) => ({ s with seen }.count fun c => { c with duplicates := c.duplicates + 1 }, .duplicate)

/-- Open a call. -/
def openCall (s : Session) (event : Event) (hidden : Bool) : Session × Nat :=
  let (stack, slot) := s.stack.push event hidden
  ({ s with stack }.count fun c => { c with calls := c.calls + 1 }.observeDepth stack.depth, slot)

/-- A call. -/
def enter (s : Session) (event : Event) : Session × Outcome :=
  let hidden := s.settings.filter.hides event
  let (s, slot) := s.openCall event hidden
  if hidden then (s.count fun c => { c with suppressed := c.suppressed + 1 }, .suppressed)
  else
    match s.settings.layout with
    | .events => s.record (Row.ofEvent event)
    | .edges =>
      match s.callerOf slot with
      | none => (s, .tracked)
      | some caller =>
        if caller.isRoot && !s.settings.rootCalls then (s, .tracked)
        else s.recordEdge (Row.ofEdge event caller)

/-- Close the innermost call. -/
def closeCall (s : Session) : Session :=
  { s with stack := s.stack.pop.1 }

/-- The row of a return, if the layout has returns and the call was not hidden. -/
def finishReturn (s : Session) (event : Event) (hidden : Bool) : Session × Outcome :=
  match s.settings.layout with
  | .edges => (s, .popped)
  | .events => if hidden then (s, .popped) else s.record (Row.ofEvent event)

/-- A return that belongs to no open call. -/
def unmatched (s : Session) (event : Event) : Session × Outcome :=
  ((s.count fun c => { c with unmatchedReturns := c.unmatchedReturns + 1 }).say
    (.unmatchedReturn event.method.entity event.method.name), .unmatched)

/-- Which open calls a return closes. -/
inductive Match where
  | none
  /-- The innermost call. -/
  | innermost (frame : Frame)
  /-- The call below the innermost one, together with it. -/
  | below (frame : Frame)

/-- Whether a frame is a call of the event's method. The root is no call. -/
def Match.of (frame : Frame) (event : Event) : Bool :=
  !frame.isRoot && frame.event.sameMethod event

/-- Find the open calls that a return closes. -/
def matchReturn (s : Session) (event : Event) : Match :=
  match s.stack.top, s.stack.peek with
  | some slot, some frame =>
    if Match.of frame event then .innermost frame
    else if event.fromBlock && s.settings.blockReturns == .reattribute && !frame.isRoot then
      match s.stack.below slot with
      | .ok (some lower) => if Match.of lower event then .below lower else .none
      | _ => .none
    else .none
  | _, _ => .none

/-- A return. -/
def leave (s : Session) (event : Event) : Session × Outcome :=
  match s.matchReturn event with
  | .none => s.unmatched event
  | .innermost frame =>
    (s.closeCall.count fun c => { c with returns := c.returns + 1 }).finishReturn event frame.hidden
  | .below frame =>
    (s.closeCall.closeCall.count fun c =>
        { c with returns := c.returns + 1, blockReturns := c.blockReturns + 1 }).finishReturn
      { kind := .leave, method := event.method, path := frame.event.path, line := frame.event.line,
        fromBlock := true }
      frame.hidden

/-- A call or a return. -/
def take (s : Session) (event : Event) : Session × Outcome :=
  match event.kind with
  | .call => s.enter event
  | .leave => s.leave event

/-- What a notification from the owning process and thread reports, if it reports an event. -/
def process (s : Session) (event? : Option Event) : Session × Outcome :=
  match event? with
  | none => s.ignore .unclassified
  | some event =>
    if s.settings.ownEntity = some event.method.entity then s.ignore .tracerInternal else s.take event

/-- Take a notification. -/
def deliver (s : Session) (n : Notification) : Session × Outcome :=
  if s.finalizing then s.disable.ignore .finalizing
  else if !s.isTracing then s.ignore .notTracing
  else
    match s.checkOwner with
    | (s, .child) =>
      ((s.say (.forkDetected s.ownership.owner s.host.process)).disable.inPhase .idle).ignore .forkedChild
    | (s, .owner) =>
      if s.host.thread ≠ s.ownerThread then s.ignore .foreignThread
      else (s.count fun c => { c with events := c.events + 1 }).process n.event?

end Session
end MethodTrace
