import MethodTrace.Object.Basic

/-!
# Notifications

What a host program tells the tracer each time a method is entered or left.
-/

namespace MethodTrace

/-- The kind of a notification. Methods of the host itself are native. -/
inductive NotificationKind where
  | enter
  | nativeEnter
  | leave
  | nativeLeave
  /-- Anything else the host reports, such as a line reached or an exception raised. -/
  | other
  deriving DecidableEq, Repr

/-- One notification. -/
structure Notification where
  kind : NotificationKind
  receiver : Receiver
  method : Option String := none
  /-- The type that defines the method. -/
  definedOn : Option TypeObject := none
  path : Option String := none
  line : UInt32 := 0
  /-- Whether a block raised it, rather than a method. -/
  fromBlock : Bool := false
  deriving DecidableEq, Repr

end MethodTrace
