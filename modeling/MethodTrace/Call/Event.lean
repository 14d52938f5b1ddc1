import MethodTrace.Fingerprint
import MethodTrace.Notification
import MethodTrace.Object.Naming

/-!
# Calls and returns

A notification whose method has been resolved. An event carries a token of its method, so that most events of
different methods are told apart without comparing names; `sameMethod` compares the names too.
-/

namespace MethodTrace

/-- A method as records name it. -/
structure Method where
  entity : String
  name : String
  level : Level
  deriving DecidableEq, Repr

/-- A method of an owner. -/
def Owner.method (owner : Owner) (name : String) : Method :=
  ⟨owner.entity, name, owner.level⟩

/-- The byte for a level in a method's token. -/
def Level.byte : Level → UInt8
  | .onInstance => 0
  | .onType => 1

/-- The bytes a method's token is made of. No text holds the byte `0xff`, so it parts the two names. -/
def Method.bytes (m : Method) : ByteArray :=
  m.entity.toUTF8 ++ ⟨#[0xff]⟩ ++ m.name.toUTF8 ++ ⟨#[m.level.byte]⟩

/-- A short stand-in for a method. -/
def Method.token (m : Method) : UInt64 :=
  fingerprint m.bytes

/-- Whether an event is a call or a return. -/
inductive EventKind where
  | call
  | leave
  deriving DecidableEq, Repr

/-- The word for an event's kind in a record. -/
def EventKind.word : EventKind → String
  | .call => "call"
  | .leave => "return"

/-- The event a notification stands for, if any. -/
def NotificationKind.event? : NotificationKind → Option EventKind
  | .enter | .nativeEnter => some .call
  | .leave | .nativeLeave => some .leave
  | .other => none

/-- A call or a return of a method, and where it happened. -/
structure Event where
  kind : EventKind
  method : Method
  path : String
  line : UInt32
  fromBlock : Bool := false
  token : UInt64 := method.token
  token_eq : token = method.token := by rfl
  deriving Repr

/-- The name of the place where every trace begins. -/
def rootName : String := "<ROOT>"

namespace Event

/-- The call at the bottom of a stack, under every call of the program. -/
def root : Event where
  kind := .call
  method := ⟨rootName, rootName, .onInstance⟩
  path := ""
  line := 0

/-- Whether two events are of one method. Tokens are compared first, as they mostly decide. -/
def sameMethod (a b : Event) : Bool :=
  a.token == b.token && a.method == b.method

theorem sameMethod_iff {a b : Event} : a.sameMethod b = true ↔ a.method = b.method := by
  simp only [sameMethod, Bool.and_eq_true, beq_iff_eq, and_iff_right_iff_imp]
  intro same
  rw [a.token_eq, b.token_eq, same]

end Event

/-! ### What a notification reports -/

namespace Notification

/-- The name of the method, or what stands for it. -/
def methodName (n : Notification) : String :=
  n.method.getD unknownName

/-- The owner of the call, by the rule. -/
def owner (n : Notification) : Owner :=
  ownerOf n.receiver n.methodName n.definedOn

/-- The method of the call, named by the rule. -/
def calledMethod (n : Notification) : Method :=
  n.owner.method n.methodName

/-- The event that is reported, if one is, once the owner of the call is known. -/
def eventOf (n : Notification) (owner : Owner) : Option Event :=
  n.kind.event?.map fun kind =>
    { kind, method := owner.method n.methodName, path := n.path.getD "", line := n.line, fromBlock := n.fromBlock }

/-- The event that is reported, if one is. -/
def event? (n : Notification) : Option Event :=
  n.eventOf n.owner

end Notification

end MethodTrace
