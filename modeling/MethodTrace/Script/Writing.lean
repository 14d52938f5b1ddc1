import MethodTrace.Json.Writer
import MethodTrace.Script.Reading

/-!
# Writing scripts

An operation is written as an object on one line: its word under `op`, then its fields in their order. A receiver that
is described by a value is an object with that one member. Every field is written, also one that holds its default.
-/

namespace MethodTrace

namespace Json

/-- A natural number. -/
def ofNat (n : Nat) : Json := .number { whole := n }

/-- A value that may be absent. -/
def ofOption {α : Type} (write : α → Json) : Option α → Json
  | none => .null
  | some a => write a

end Json

/-- A receiver. -/
def ScriptReceiver.toJson (r : ScriptReceiver) : Json :=
  match r with
  | instanceOf name | theClass name | theModule name | singletonOfClass name | singletonOfInstance name =>
    .object [(r.tag, .string name)]
  | anonymousClass number | anonymousModule number => .object [(r.tag, .ofNat number.toNat)]
  | unknown => .string r.tag

/-- The fields of a notification. -/
def ScriptEvent.fields (event : ScriptEvent) : Fields :=
  [("receiver", event.receiver.toJson),
    ("method", .ofOption .string event.method),
    ("block", .bool event.fromBlock),
    ("defined_class", .ofOption .string event.definedOn),
    ("path", .ofOption .string event.path),
    ("line", .ofNat event.line.toNat),
    ("thread", .ofOption (fun thread => .ofNat thread.toNat) event.thread)]

namespace Operation

/-- The fields of an operation. -/
def fields : Operation → Fields
  | event _ notification => notification.fields
  | start | stop | close => []
  | mark label unwinding => [("label", .string label), ("unwind", .bool unwinding)]
  | fork process => [("pid", .ofNat process.toNat)]

/-- The members of the object that an operation is written as. -/
def members (operation : Operation) : Fields :=
  ("op", .string operation.tag) :: operation.fields

/-- The line of an operation. -/
def write (operation : Operation) : List Char :=
  (Json.object operation.members).write

end Operation

/-- A script, one operation a line. -/
def Script.write (operations : List Operation) : String :=
  String.ofList (operations.flatMap fun operation => operation.write ++ ['\n'])

end MethodTrace
