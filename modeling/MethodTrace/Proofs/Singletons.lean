import Mathlib.Logic.IsEmpty.Defs
import MethodTrace.Object.Naming

/-! # Looking through singletons

Every type is a chain of singletons around its innermost type, which is no singleton or is that of an unknown value. Of
the layers of a chain, as many as there are but at most eight are looked through, from the outside in. -/

namespace MethodTrace

/-- A singleton around a type: of the type itself, or of an instance of it. -/
structure SingletonLayer where
  id : ObjectId
  onInstance : Bool
  deriving DecidableEq, Repr

def SingletonLayer.around (layer : SingletonLayer) (type : TypeObject) : TypeObject :=
  .singleton layer.id (if layer.onInstance then .instanceOf type else .typeItself type)

namespace TypeObject

/-- A type with layers of singletons around it, the innermost layer first. -/
def wrapped (type : TypeObject) (layers : List SingletonLayer) : TypeObject :=
  layers.foldl (fun inner layer => layer.around inner) type

/-- The type that a singleton hangs on. -/
def owner? : TypeObject → Option TypeObject
  | singletonOfType _ owner | singletonOfInstance _ owner => some owner
  | _ => none

theorem peel_of_owner {type owner : TypeObject} (h : type.owner? = some owner) (n : Nat) :
    type.peel (n + 1) = owner.peel n := by
  cases type <;> cases h <;> rfl

theorem peel_of_innermost {type : TypeObject} (h : type.owner? = none) (n : Nat) : type.peel n = type := by
  cases type <;> cases h <;> cases n <;> rfl

theorem innermost_iff {type : TypeObject} :
    type.owner? = none ↔ type.isSingleton = false ∨ ∃ id, type = .singleton id .unknown := by
  cases type <;> simp [owner?, isSingleton, singleton]

@[simp] theorem owner?_around (layer : SingletonLayer) (type : TypeObject) :
    (layer.around type).owner? = some type := by
  unfold SingletonLayer.around singleton
  cases layer.onInstance <;> rfl

theorem isSingleton_of_owner {type owner : TypeObject} (h : type.owner? = some owner) : type.isSingleton = true := by
  cases type <;> cases h <;> rfl

theorem wrapped_concat (type : TypeObject) (layers : List SingletonLayer) (layer : SingletonLayer) :
    type.wrapped (layers ++ [layer]) = layer.around (type.wrapped layers) := by
  simp [wrapped]

/-- The layers come off from the outside, until none is left. -/
theorem peel_wrapped {base : TypeObject} (h : base.owner? = none) (layers : List SingletonLayer) (n : Nat) :
    (base.wrapped layers).peel n = base.wrapped (layers.take (layers.length - n)) := by
  -- The layer that is taken off first is the last of the list.
  induction n generalizing layers with
  | zero =>
    rw [Nat.sub_zero, List.take_length]
    cases base.wrapped layers <;> rfl
  | succ n ih =>
    rcases List.eq_nil_or_concat layers with rfl | ⟨inner, layer, rfl⟩
    · simpa using @peel_of_innermost (base.wrapped []) h (n + 1)
    · have hlen : (inner ++ [layer]).length - (n + 1) = inner.length - n := by simp
      rw [List.concat_eq_append, wrapped_concat, peel_of_owner (owner?_around _ _), ih, hlen,
        List.take_append_of_le_length (Nat.sub_le _ _)]

theorem behindSingletons_wrapped {base : TypeObject} (h : base.owner? = none) (layers : List SingletonLayer) :
    (base.wrapped layers).behindSingletons = base.wrapped (layers.take (layers.length - 8)) :=
  peel_wrapped h layers 8

theorem isSingleton_wrapped {base : TypeObject} {layers : List SingletonLayer} :
    (base.wrapped layers).isSingleton = false ↔ base.isSingleton = false ∧ layers = [] := by
  rcases List.eq_nil_or_concat layers with rfl | ⟨inner, layer, rfl⟩
  · simp [wrapped]
  · simp [List.concat_eq_append, wrapped_concat, isSingleton_of_owner (owner?_around layer (base.wrapped inner))]

theorem exists_wrapped (type : TypeObject) :
    ∃ (base : TypeObject) (layers : List SingletonLayer), base.owner? = none ∧ type = base.wrapped layers := by
  induction type with
  | singletonOfType id owner ih =>
    obtain ⟨base, layers, hbase, rfl⟩ := ih
    refine ⟨base, layers ++ [⟨id, false⟩], hbase, ?_⟩
    rw [wrapped_concat]
    rfl
  | singletonOfInstance id owner ih =>
    obtain ⟨base, layers, hbase, rfl⟩ := ih
    refine ⟨base, layers ++ [⟨id, true⟩], hbase, ?_⟩
    rw [wrapped_concat]
    rfl
  | named => exact ⟨_, [], rfl, rfl⟩
  | anonymous => exact ⟨_, [], rfl, rfl⟩
  | singletonOfUnknown => exact ⟨_, [], rfl, rfl⟩

/-- Whatever way a type is reached from a call, the call belongs to an entity. Only a constructor that is called on the
type itself is left out. -/
structure EntityThrough (type : TypeObject) (cache : NameCache) (entity : String) : Prop where
  ofInstance : ∀ method definedOn, (cache.resolve (.instanceOf type) method definedOn).2 = ⟨entity, .onInstance⟩
  ofType : ∀ method definedOn, method ≠ "initialize" →
    (cache.resolve (.typeItself type) method definedOn).2 = ⟨entity, .onType⟩
  ofUnknown : ∀ method, (cache.resolve .unknown method (some type)).2 = ⟨entity, .onInstance⟩

theorem entityThrough (type : TypeObject) (cache : NameCache) :
    EntityThrough type cache (cache.nameOf type.behindSingletons).2 where
  ofInstance _ _ := rfl
  ofType _ _ hmethod := congrArg Prod.snd (NameCache.resolve_typeItself hmethod cache type _)
  ofUnknown _ := rfl

/-- Every type is a chain around an innermost type. If that is no singleton, what stands behind the chain is the chain
without its eight outer layers, or without all of them, and it is no singleton exactly for up to eight layers; then
every call on the chain belongs to the innermost type, whatever its cache calls that type, which is the type's own name
unless its number is taken by another name. A chain around an unknown value always ends at a singleton, within eight
layers at the one of that value. -/
theorem behind_chain :
    (∀ type : TypeObject, ∃ (base : TypeObject) (layers : List SingletonLayer),
        (base.isSingleton = false ∨ ∃ id, base = .singleton id .unknown) ∧ type = base.wrapped layers) ∧
      (∀ (base : TypeObject) (layers : List SingletonLayer), base.isSingleton = false →
        let chain := base.wrapped layers
        chain.behindSingletons = base.wrapped (layers.take (layers.length - min layers.length 8)) ∧
          (chain.behindSingletons.isSingleton = false ↔ layers.length ≤ 8) ∧
          (layers.length ≤ 8 → ∀ cache : NameCache, EntityThrough chain cache (cache.nameOf base).2 ∧
            (cache.TrueTo base → (cache.nameOf base).2 = base.entity))) ∧
      ∀ (id : ObjectId) (layers : List SingletonLayer),
        let chain := (singleton id .unknown).wrapped layers
        (layers.length ≤ 8 → chain.behindSingletons = .singleton id .unknown) ∧
          chain.behindSingletons.isSingleton = true := by
  refine ⟨fun type => ?_, fun base layers hreal => ?_, fun id layers => ?_⟩
  · obtain ⟨base, layers, hbase, heq⟩ := exists_wrapped type
    exact ⟨base, layers, innermost_iff.mp hbase, heq⟩
  · intro chain
    have hbehind := behindSingletons_wrapped (innermost_iff.mpr (.inl hreal)) layers
    have hlayers : layers.length - min layers.length 8 = layers.length - 8 := by omega
    refine ⟨by rw [hlayers]; exact hbehind, ?_, fun hlen cache => ⟨?_, NameCache.TrueTo.nameOf_snd⟩⟩
    · simp only [chain, hbehind, isSingleton_wrapped, hreal, true_and, List.take_eq_nil_iff]
      rw [← List.length_eq_zero_iff]
      omega
    · have hbase : chain.behindSingletons = base := by
        rw [hbehind, Nat.sub_eq_zero_of_le hlen]
        rfl
      exact hbase ▸ entityThrough chain cache
  · intro chain
    have hbehind := behindSingletons_wrapped (innermost_iff.mpr (.inr ⟨id, rfl⟩)) layers
    refine ⟨fun hlen => ?_, ?_⟩
    · rw [hbehind, Nat.sub_eq_zero_of_le hlen]
      rfl
    · rw [hbehind, ← Bool.not_eq_false, isSingleton_wrapped]
      simp [singleton, isSingleton]

/-- Eight layers, the outer one of an instance, are looked through, and with one layer more a singleton is left. A
singleton of an unknown value is all that is found behind eight layers around it. -/
theorem behind_eight_layers :
    let deep : TypeObject := .named 1 .ofClasses "Deep"
    let layers : List SingletonLayer := List.replicate 7 ⟨2, false⟩ ++ [⟨3, true⟩]
    let chain := deep.wrapped layers
    let further := deep.wrapped (layers ++ [⟨4, false⟩])
    let around := (singleton 5 .unknown).wrapped layers
    deep.isSingleton = false ∧ layers.length ≤ 8 ∧ chain.behindSingletons.isSingleton = false ∧
      (∀ cache, EntityThrough chain cache "Deep") ∧ further.behindSingletons = deep.wrapped [⟨2, false⟩] ∧
        further.behindSingletons.isSingleton = true ∧ around.behindSingletons = .singleton 5 .unknown := by
  intro deep layers chain further around
  obtain ⟨-, hreal, hunknown⟩ := behind_chain
  obtain ⟨-, hchain, hentity⟩ := hreal deep layers rfl
  obtain ⟨hpeeled, hfurther, -⟩ := hreal deep (layers ++ [⟨4, false⟩]) rfl
  have deepNamed : ∀ cache, EntityThrough chain cache "Deep" := fun cache => (hentity (by decide) cache).1
  refine ⟨rfl, by decide, hchain.mpr (by decide), deepNamed, hpeeled, ?_, (hunknown 5 layers).1 (by decide)⟩
  rw [← Bool.not_eq_false, hfurther]
  decide

end TypeObject
end MethodTrace
