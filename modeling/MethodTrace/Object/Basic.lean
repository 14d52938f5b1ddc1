/-!
# Types and receivers

The part of a host program's object model that a trace needs: types with or without a name, the singleton
types that hang on one type or one instance, and the receiver of a call. A singleton is looked through to
what it hangs on, a bounded number of layers deep.
-/

namespace MethodTrace

/-- The type of a type. -/
inductive Metatype where
  | ofClasses
  | ofModules
  deriving DecidableEq, Repr, Hashable

/-- The name under which a metatype is recorded. -/
def Metatype.name : Metatype → String
  | .ofClasses => "Class"
  | .ofModules => "Module"

/-- The address-like number that tells types apart. -/
abbrev ObjectId := UInt64

/-- A type of the host program. Singletons have no name of their own, and are classes. -/
inductive TypeObject where
  /-- A class or module with a name. -/
  | named (id : ObjectId) (metatype : Metatype) (name : String)
  /-- A class or module without one. -/
  | anonymous (id : ObjectId) (metatype : Metatype)
  /-- The singleton of a type. -/
  | singletonOfType (id : ObjectId) (owner : TypeObject)
  /-- The singleton of one instance of a type. -/
  | singletonOfInstance (id : ObjectId) (owner : TypeObject)
  /-- The singleton of a value about which nothing is known. -/
  | singletonOfUnknown (id : ObjectId)
  deriving DecidableEq, Repr

/-- The value a method is called on. -/
inductive Receiver where
  /-- An instance of a type. -/
  | instanceOf (type : TypeObject)
  /-- A type, as a value. -/
  | typeItself (type : TypeObject)
  /-- A value about which nothing is known. -/
  | unknown
  deriving DecidableEq, Repr

namespace TypeObject

/-- The number of a type. -/
def id : TypeObject → ObjectId
  | named id _ _ | anonymous id _ | singletonOfType id _ | singletonOfInstance id _ | singletonOfUnknown id => id

/-- The metatype of a type. -/
def metatype : TypeObject → Metatype
  | named _ m _ | anonymous _ m => m
  | singletonOfType _ _ | singletonOfInstance _ _ | singletonOfUnknown _ => .ofClasses

/-- The type's own name. -/
def name? : TypeObject → Option String
  | named _ _ name => some name
  | _ => none

/-- Whether the type is the singleton of some value. -/
def isSingleton : TypeObject → Bool
  | named _ _ _ | anonymous _ _ => false
  | singletonOfType _ _ | singletonOfInstance _ _ | singletonOfUnknown _ => true

/-- The singleton of a value. -/
def singleton (id : ObjectId) : Receiver → TypeObject
  | .instanceOf owner => singletonOfInstance id owner
  | .typeItself owner => singletonOfType id owner
  | .unknown => singletonOfUnknown id

/-- Peel up to `layers` singletons off a type. A singleton of an unknown value stays. -/
def peel : Nat → TypeObject → TypeObject
  | layers + 1, singletonOfType _ owner => peel layers owner
  | layers + 1, singletonOfInstance _ owner => peel layers owner
  | _, type => type

/-- How many singletons are looked through. -/
def maxLayers : Nat := 8

/-- The type that stands behind a type's singletons. -/
def behindSingletons (type : TypeObject) : TypeObject :=
  type.peel maxLayers

end TypeObject

/-! ### New types -/

/-- The numbers not yet given to a type, by the next one. -/
structure ObjectIds where
  next : ObjectId := 0x7f100000
  deriving DecidableEq, Repr

/-- The distance between the numbers of two types made one after the other. -/
def ObjectIds.stride : ObjectId := 0x28

/-- Give the next number to a new type. -/
def ObjectIds.create (ids : ObjectIds) (make : ObjectId → TypeObject) : ObjectIds × TypeObject :=
  (⟨ids.next + ObjectIds.stride⟩, make ids.next)

end MethodTrace
