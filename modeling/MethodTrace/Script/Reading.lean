import MethodTrace.Json.Reader
import MethodTrace.Script.Operation

/-!
# Operations as JSON

An operation is an object whose member `op` says which one it is, or an array that begins with that word and goes
on with the other fields in their order. No field may be given twice; fields that the operation does not have are
passed over. A field with a default may be missing, and only a field without a value may be null.
-/

namespace MethodTrace

namespace Json

/-- A text. -/
def asString? : Json → Option String
  | .string s => some s
  | _ => none

/-- A truth value. -/
def asBool? : Json → Option Bool
  | .bool b => some b
  | _ => none

/-- A natural number of at most the given one. -/
def asNat? (greatest : Nat) : Json → Option Nat
  | .number n => n.toNat?.filter (· ≤ greatest)
  | _ => none

/-- A 32-bit word. -/
def asWord32? (json : Json) : Option UInt32 :=
  (json.asNat? (UInt32.size - 1)).map UInt32.ofNat

/-- A 64-bit word. -/
def asWord64? (json : Json) : Option UInt64 :=
  (json.asNat? (UInt64.size - 1)).map UInt64.ofNat

/-- A value that may be absent, written null. -/
def asOption? {α : Type} (read : Json → Option α) : Json → Option (Option α)
  | .null => some none
  | json => (read json).map some

end Json

/-! ### Fields -/

/-- The fields of an operation, by name. -/
abbrev Fields := List (String × Json)

namespace Fields

/-- The values given to a field, first to last. -/
def given (fields : Fields) (name : String) : List Json :=
  fields.filterMap fun field => if field.1 = name then some field.2 else none

/-- A field that has to be given. -/
def required? {α : Type} (fields : Fields) (name : String) (read : Json → Option α) : Option α :=
  match fields.given name with
  | [json] => read json
  | _ => none

/-- A field that has a default. -/
def optional? {α : Type} (fields : Fields) (name : String) (default : α) (read : Json → Option α) : Option α :=
  match fields.given name with
  | [] => some default
  | [json] => read json
  | _ => none

end Fields

/-- The fields of an operation that was written as an object or as an array. Those of an array have the names that
the operation gives them, in order; more of them than names are none. -/
inductive Payload where
  | members (fields : Fields)
  | items (values : List Json)

/-- The fields under their names. -/
def Payload.fields? (names : List String) : Payload → Option Fields
  | members fields => some fields
  | items values => if values.length ≤ names.length then some (names.zip values) else none

/-! ### Receivers -/

/-- A receiver that is described by a value. -/
def ScriptReceiver.ofTagged? (tag : String) (json : Json) : Option ScriptReceiver :=
  match tag with
  | "instance" => json.asString?.map .instanceOf
  | "class" => json.asString?.map .theClass
  | "module" => json.asString?.map .theModule
  | "singleton_of_class" => json.asString?.map .singletonOfClass
  | "singleton_of_instance" => json.asString?.map .singletonOfInstance
  | "anonymous_class" => json.asWord64?.map .anonymousClass
  | "anonymous_module" => json.asWord64?.map .anonymousModule
  | "opaque" =>
    match json with
    | .null | .object [] => some .unknown
    | _ => none
  | _ => none

/-- A receiver: an object with one member, or the word for an unknown one. -/
def ScriptReceiver.ofJson? : Json → Option ScriptReceiver
  | .string "opaque" => some .unknown
  | .object [(tag, json)] => ofTagged? tag json
  | _ => none

/-! ### Operations -/

/-- The names of a notification's fields, in their order. -/
def ScriptEvent.fieldNames : List String :=
  ["receiver", "method", "block", "defined_class", "path", "line", "thread"]

/-- A notification from its fields. -/
def ScriptEvent.ofFields? (fields : Fields) : Option ScriptEvent := do
  let receiver ← fields.required? "receiver" ScriptReceiver.ofJson?
  let method ← fields.optional? "method" none (Json.asOption? Json.asString?)
  let fromBlock ← fields.optional? "block" false Json.asBool?
  let definedOn ← fields.optional? "defined_class" none (Json.asOption? Json.asString?)
  let path ← fields.optional? "path" none (Json.asOption? Json.asString?)
  let line ← fields.optional? "line" 0 Json.asWord32?
  let thread ← fields.optional? "thread" none (Json.asOption? Json.asWord64?)
  return { receiver, method, fromBlock, definedOn, path, line, thread }

/-- The kind of notification that a word names. -/
def ScriptEventKind.ofTag? : String → Option ScriptEventKind
  | "call" => some .call
  | "return" => some .leave
  | "native_call" => some .nativeCall
  | "native_return" => some .nativeLeave
  | "other" => some .other
  | _ => none

namespace Operation

/-- The operation that a word and its fields describe. -/
def ofTagged? (tag : String) (payload : Payload) : Option Operation :=
  match tag with
  | "start" => (payload.fields? []).map fun _ => .start
  | "stop" => (payload.fields? []).map fun _ => .stop
  | "close" => (payload.fields? []).map fun _ => .close
  | "mark" => do
    let fields ← payload.fields? ["label", "unwind"]
    let label ← fields.optional? "label" "" Json.asString?
    let unwinding ← fields.optional? "unwind" false Json.asBool?
    return .mark label unwinding
  | "fork" => do
    let fields ← payload.fields? ["pid"]
    return .fork (← fields.required? "pid" Json.asWord32?)
  | tag => do
    let kind ← ScriptEventKind.ofTag? tag
    let fields ← payload.fields? ScriptEvent.fieldNames
    return .event kind (← ScriptEvent.ofFields? fields)

/-- The operation that a value describes. -/
def ofJson? : Json → Option Operation
  | .object members => do
    let tag ← Fields.required? members "op" Json.asString?
    ofTagged? tag (.members (members.filter (·.1 ≠ "op")))
  | .array (.string tag :: values) => ofTagged? tag (.items values)
  | _ => none

/-- The operation on a line. -/
def ofLine? (line : List Char) : Option Operation :=
  (Json.ofChars? line).bind ofJson?

end Operation

end MethodTrace
