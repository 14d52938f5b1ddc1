import MethodTrace.Host.Basic

/-!
# Script operations

A script is a recording of what a host delivered. Its types are described by name or number, so that a recording
can be replayed in another process.
-/

namespace MethodTrace

/-- The receiver of a recorded notification. -/
inductive ScriptReceiver where
  /-- An instance of the class of that name. -/
  | instanceOf (name : String)
  /-- The class itself. -/
  | theClass (name : String)
  /-- The module itself. -/
  | theModule (name : String)
  /-- The singleton of the class. -/
  | singletonOfClass (name : String)
  /-- The singleton of an instance of the class. -/
  | singletonOfInstance (name : String)
  /-- A class without a name, known by a number. -/
  | anonymousClass (number : UInt64)
  /-- A module without a name, known by a number. -/
  | anonymousModule (number : UInt64)
  /-- Nothing is known of the receiver. -/
  | unknown
  deriving DecidableEq, Repr

/-- A recorded notification. -/
structure ScriptEvent where
  receiver : ScriptReceiver
  method : Option String := none
  fromBlock : Bool := false
  /-- The class that defines the method, by name. -/
  definedOn : Option String := none
  path : Option String := none
  line : UInt32 := 0
  /-- The thread it came from; the main thread if none is given. -/
  thread : Option ThreadId := none
  deriving DecidableEq, Repr

/-- The five kinds of recorded notification. -/
inductive ScriptEventKind where
  | call
  | leave
  | nativeCall
  | nativeLeave
  | other
  deriving DecidableEq, Repr

/-- One operation of a script. -/
inductive Operation where
  | event (kind : ScriptEventKind) (event : ScriptEvent)
  | start
  | stop
  | mark (label : String) (unwinding : Bool)
  /-- The program goes on in a child with this process number. -/
  | fork (process : ProcessId)
  | close
  deriving DecidableEq, Repr

/-- The words by which receivers are told apart in a script. -/
def ScriptReceiver.tag : ScriptReceiver → String
  | instanceOf _ => "instance"
  | theClass _ => "class"
  | theModule _ => "module"
  | singletonOfClass _ => "singleton_of_class"
  | singletonOfInstance _ => "singleton_of_instance"
  | anonymousClass _ => "anonymous_class"
  | anonymousModule _ => "anonymous_module"
  | unknown => "opaque"

/-- The word for a kind of recorded notification. -/
def ScriptEventKind.tag : ScriptEventKind → String
  | call => "call"
  | leave => "return"
  | nativeCall => "native_call"
  | nativeLeave => "native_return"
  | other => "other"

/-- The word for an operation. -/
def Operation.tag : Operation → String
  | event kind _ => kind.tag
  | start => "start"
  | stop => "stop"
  | mark _ _ => "mark"
  | fork _ => "fork"
  | close => "close"

end MethodTrace
