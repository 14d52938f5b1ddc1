import Std.Data.HashMap
import MethodTrace.Object.Basic
import MethodTrace.Text.Digits

/-!
# Naming the entity of a call

Which entity a call belongs to, and whether it is made on an instance or on the type itself. The rule itself,
`ownerOf`, looks only at the receiver, the method and the defining type. `NameCache` makes the name of an unnamed type
once and keeps it under the type's number, so it answers by the rule as long as no two types have one number.
-/

namespace MethodTrace

/-- Whether a method is called on an instance or on a type. -/
inductive Level where
  | onInstance
  | onType
  deriving DecidableEq, Repr

/-- The word for a level in a record. -/
def Level.word : Level → String
  | .onInstance => "instance"
  | .onType => "class"

/-- The name for what cannot be resolved. -/
def unknownName : String := "<UNKNOWN>"

/-- The method that makes an instance. On a type it is an instance-level call on the metatype. -/
def constructorMethod : String := "initialize"

/-- The name made for a type without one: its metatype and its number. -/
def generatedName (metatype : Metatype) (id : ObjectId) : String :=
  "#<" ++ metatype.name ++ ":0x" ++ Text.padStart '0' 16 (Text.hex id.toNat) ++ ">"

/-- The name of a type, its own or a generated one. -/
def TypeObject.entity (type : TypeObject) : String :=
  type.name?.getD (generatedName type.metatype type.id)

/-- The entity a call belongs to, and the level it is made on. -/
structure Owner where
  entity : String
  level : Level
  deriving DecidableEq, Repr

/-- The owner of a call. The defining type counts only where nothing is known of the receiver. -/
def ownerOf (receiver : Receiver) (method : String) (definedOn : Option TypeObject) : Owner :=
  match receiver with
  | .typeItself type =>
    if method = constructorMethod then ⟨type.behindSingletons.metatype.name, .onInstance⟩
    else ⟨type.behindSingletons.entity, .onType⟩
  | .instanceOf type => ⟨type.behindSingletons.entity, .onInstance⟩
  | .unknown =>
    match definedOn with
    | some type => ⟨type.behindSingletons.entity, .onInstance⟩
    | none => ⟨unknownName, .onInstance⟩

/-! ### Keeping generated names -/

/-- The generated names made so far, under the numbers of their types. -/
structure NameCache where
  names : Std.HashMap ObjectId String := ∅

namespace NameCache

/-- The name of a type, made at most once for a number. -/
def nameOf (cache : NameCache) (type : TypeObject) : NameCache × String :=
  match type.name? with
  | some name => (cache, name)
  | none =>
    match cache.names[type.id]? with
    | some name => (cache, name)
    | none =>
      let name := generatedName type.metatype type.id
      ({ names := cache.names.insert type.id name }, name)

/-- The owner of a call, with its name kept. -/
def resolve (cache : NameCache) (receiver : Receiver) (method : String) (definedOn : Option TypeObject) :
    NameCache × Owner :=
  let onLevel (level : Level) (type : TypeObject) : NameCache × Owner :=
    let (cache, entity) := cache.nameOf type.behindSingletons
    (cache, ⟨entity, level⟩)
  match receiver with
  | .typeItself type =>
    if method = constructorMethod then (cache, ⟨type.behindSingletons.metatype.name, .onInstance⟩)
    else onLevel .onType type
  | .instanceOf type => onLevel .onInstance type
  | .unknown =>
    match definedOn with
    | some type => onLevel .onInstance type
    | none => (cache, ⟨unknownName, .onInstance⟩)

theorem resolve_typeItself {method : String} (h : method ≠ constructorMethod) (cache : NameCache) (type : TypeObject)
    (definedOn : Option TypeObject) : cache.resolve (.typeItself type) method definedOn =
      (cache.nameOf type.behindSingletons).map id (Owner.mk · .onType) :=
  if_neg h

/-- What is kept under the number of a type, if it has no name, is the name that is made for it. -/
def TrueTo (cache : NameCache) (type : TypeObject) : Prop :=
  type.name? = none → ∀ name, cache.names[type.id]? = some name → name = type.entity

theorem nameOf_of_named {type : TypeObject} {name : String} (own : type.name? = some name) (cache : NameCache) :
    cache.nameOf type = (cache, name) := by
  simp only [nameOf, own]

theorem nameOf_of_kept {type : TypeObject} {cache : NameCache} {name : String} (unnamed : type.name? = none)
    (kept : cache.names[type.id]? = some name) : cache.nameOf type = (cache, name) := by
  simp only [nameOf, unnamed, kept]

theorem nameOf_of_new {type : TypeObject} {cache : NameCache} (unnamed : type.name? = none)
    (new : cache.names[type.id]? = none) :
    cache.nameOf type = (⟨cache.names.insert type.id type.entity⟩, type.entity) := by
  simp only [nameOf, unnamed, new, TypeObject.entity, Option.getD_none]

theorem TrueTo.nameOf_snd {cache : NameCache} {type : TypeObject} (h : cache.TrueTo type) :
    (cache.nameOf type).2 = type.entity := by
  cases own : type.name? with
  | some name => simp [nameOf_of_named own, TypeObject.entity, own]
  | none =>
    cases kept : cache.names[type.id]? with
    | some name =>
      rw [nameOf_of_kept own kept]
      exact h own name kept
    | none => rw [nameOf_of_new own kept]

end NameCache

end MethodTrace
