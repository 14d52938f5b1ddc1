import Std.Data.HashMap
import MethodTrace.Notification
import MethodTrace.Script.Operation

/-!
# The types of a script

A script describes its types by name or number. Each description stands for one type throughout a replay, made the
first time it is met.
-/

namespace MethodTrace

/-- The description of a type. -/
inductive TypeKey where
  | theClass (name : String)
  | theModule (name : String)
  | singletonOfClass (name : String)
  | singletonOfInstance (name : String)
  | anonymousClass (number : UInt64)
  | anonymousModule (number : UInt64)
  deriving DecidableEq, Repr, Hashable

/-- The types made so far, and the numbers left for others. -/
structure TypeTable where
  types : Std.HashMap TypeKey TypeObject := ∅
  ids : ObjectIds := {}

namespace TypeTable

/-- The type of a description, made now if it was not met before. -/
def intern (t : TypeTable) (key : TypeKey) (make : ObjectId → TypeObject) : TypeTable × TypeObject :=
  match t.types[key]? with
  | some type => (t, type)
  | none =>
    let (ids, type) := t.ids.create make
    ({ types := t.types.insert key type, ids }, type)

/-- The class of a name. -/
def classNamed (t : TypeTable) (name : String) : TypeTable × TypeObject :=
  t.intern (.theClass name) (.named · .ofClasses name)

/-- The receiver that a script describes. The class under a singleton is met before the singleton. -/
def receiver (t : TypeTable) : ScriptReceiver → TypeTable × Receiver
  | .instanceOf name => (t.classNamed name).map id .instanceOf
  | .theClass name => (t.classNamed name).map id .typeItself
  | .theModule name => (t.intern (.theModule name) (.named · .ofModules name)).map id .typeItself
  | .singletonOfClass name =>
    let (t, owner) := t.classNamed name
    (t.intern (.singletonOfClass name) (.singletonOfType · owner)).map id .typeItself
  | .singletonOfInstance name =>
    let (t, owner) := t.classNamed name
    (t.intern (.singletonOfInstance name) (.singletonOfInstance · owner)).map id .typeItself
  | .anonymousClass number => (t.intern (.anonymousClass number) (.anonymous · .ofClasses)).map id .typeItself
  | .anonymousModule number => (t.intern (.anonymousModule number) (.anonymous · .ofModules)).map id .typeItself
  | .unknown => (t, .unknown)

/-- The notification that a script records. -/
def notification (t : TypeTable) (kind : ScriptEventKind) (event : ScriptEvent) : TypeTable × Notification :=
  let (t, receiver) := t.receiver event.receiver
  let (t, definedOn) := match event.definedOn with
    | none => (t, none)
    | some name => (t.classNamed name).map id some
  (t, {
    kind := match kind with
      | .call => .enter
      | .leave => .leave
      | .nativeCall => .nativeEnter
      | .nativeLeave => .nativeLeave
      | .other => .other
    receiver
    method := event.method
    definedOn
    path := event.path
    line := event.line
    fromBlock := event.fromBlock })

end TypeTable

end MethodTrace
