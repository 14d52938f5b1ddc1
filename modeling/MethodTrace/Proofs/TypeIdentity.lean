import MethodTrace.Proofs.NameQueries
import MethodTrace.Proofs.Replays

/-! # The types of a script keep their identity

A table only grows, and each of its types is made to the plan of its description (`TypeTable.WellMade`). So the table
after all runs tells what every description stood for in any of them, and types of two descriptions have two numbers. -/

namespace MethodTrace

/-! ### Descriptions -/

/-- The class that a singleton hangs on, or whose instance it hangs on. -/
def TypeKey.owner? : TypeKey → Option TypeKey
  | singletonOfClass name | singletonOfInstance name => some (.theClass name)
  | _ => none

/-- Whether a description is of a type without a name, that hangs on nothing. -/
def TypeKey.isAnonymous : TypeKey → Bool
  | anonymousClass _ | anonymousModule _ => true
  | _ => false

/-- A type is of the sort that a description says. -/
def TypeKey.Describes : TypeKey → TypeObject → Prop
  | theClass name, type => ∃ id, type = .named id .ofClasses name
  | theModule name, type => ∃ id, type = .named id .ofModules name
  | singletonOfClass name, type => ∃ id owner, type = .singletonOfType id (.named owner .ofClasses name)
  | singletonOfInstance name, type => ∃ id owner, type = .singletonOfInstance id (.named owner .ofClasses name)
  | anonymousClass _, type => ∃ id, type = .anonymous id .ofClasses
  | anonymousModule _, type => ∃ id, type = .anonymous id .ofModules

/-- A type with a name, or that hangs on one, tells its description. -/
theorem TypeKey.Describes.key_eq {key other : TypeKey} {type : TypeObject} (h : key.Describes type)
    (h' : other.Describes type) (named : key.isAnonymous = false) : key = other := by
  cases key with
  | theClass | theModule =>
    obtain ⟨_, rfl⟩ := h
    cases other <;> simp_all [Describes]
  | singletonOfClass | singletonOfInstance =>
    obtain ⟨_, _, rfl⟩ := h
    cases other <;> simp_all [Describes]
  | anonymousClass | anonymousModule => cases named

/-- The description of the type that a receiver has or is. -/
def ScriptReceiver.key? : ScriptReceiver → Option TypeKey
  | instanceOf name | theClass name => some (.theClass name)
  | theModule name => some (.theModule name)
  | singletonOfClass name => some (.singletonOfClass name)
  | singletonOfInstance name => some (.singletonOfInstance name)
  | anonymousClass number => some (.anonymousClass number)
  | anonymousModule number => some (.anonymousModule number)
  | unknown => none

/-- The receiver that is described, once its type is known. -/
def ScriptReceiver.around : ScriptReceiver → TypeObject → Receiver
  | instanceOf _, type => .instanceOf type
  | unknown, _ => .unknown
  | _, type => .typeItself type

namespace TypeTable

/-- Every type of a table is in the other one too, under the same description. -/
def Keeps (t u : TypeTable) : Prop :=
  ∀ (key : TypeKey) (type : TypeObject), t.types[key]? = some type → u.types[key]? = some type

/-- The types of a table. -/
def all (t : TypeTable) : List TypeObject := t.types.toList.map Prod.snd

/-- What the type of a description is to be. A singleton needs its class. -/
def plan? (t : TypeTable) : TypeKey → Option TypePlan
  | .theClass name => some (.named .ofClasses name)
  | .theModule name => some (.named .ofModules name)
  | .singletonOfClass name => t.types[TypeKey.theClass name]?.map fun owner => .singleton (.typeItself owner)
  | .singletonOfInstance name => t.types[TypeKey.theClass name]?.map fun owner => .singleton (.instanceOf owner)
  | .anonymousClass _ => some (.anonymous .ofClasses)
  | .anonymousModule _ => some (.anonymous .ofModules)

/-- The descriptions in the order in which their types were made, the first of which has a number. -/
structure Numbered (first : Nat) (keys : List TypeKey) (t : TypeTable) : Prop where
  next_eq : t.ids.next.toNat = (first + 0x28 * keys.length) % 2 ^ 64
  size_eq : t.types.size = keys.length
  entry : ∀ (i : Nat) key, keys[i]? = some key →
    ∃ type, t.types[key]? = some type ∧ type.id.toNat = (first + 0x28 * i) % 2 ^ 64
  covers : ∀ (key : TypeKey) type, t.types[key]? = some type → key ∈ keys

/-- What holds of a table that began without types. -/
structure WellMade (first : Nat) (t : TypeTable) : Prop where
  planned : ∀ (key : TypeKey) type, t.types[key]? = some type →
    ∃ plan, t.plan? key = some plan ∧ type = plan.make type.id
  numbered : ∃ keys, Numbered first keys t

section
variable {first : Nat} {t u v : TypeTable} {key : TypeKey} {plan : TypePlan}

theorem Keeps.refl (t : TypeTable) : t.Keeps t := fun _ _ h => h

theorem Keeps.trans (h : t.Keeps u) (more : u.Keeps v) : t.Keeps v := fun key type ht => more key type (h key type ht)

theorem Keeps.plan? (h : t.Keeps u) (hplan : t.plan? key = some plan) : u.plan? key = some plan := by
  cases key with
  | singletonOfClass name | singletonOfInstance name =>
    obtain ⟨owner, howner, rfl⟩ := Option.map_eq_some_iff.mp hplan
    exact Option.map_eq_some_iff.mpr ⟨owner, h _ _ howner, rfl⟩
  | _ => exact hplan

theorem WellMade.empty (ids : ObjectIds) : WellMade ids.next.toNat { ids } where
  planned key type h := by simp at h
  numbered := by
    refine ⟨[], ?_, rfl, by simp, by simp⟩
    exact (Nat.mod_eq_of_lt ids.next.toNat_lt).symm

/-! ### Making types -/

theorem intern_of_known {type : TypeObject} (h : t.types[key]? = some type) (make : ObjectId → TypeObject) :
    t.intern key make = (t, type) := by
  simp only [intern, h]

theorem intern_of_new (h : t.types[key]? = none) (make : ObjectId → TypeObject) :
    t.intern key make =
      ({ types := t.types.insert key (make t.ids.next), ids := ⟨t.ids.next + ObjectIds.stride⟩ }, make t.ids.next) := by
  simp only [intern, h, ObjectIds.create]

theorem keeps_insert (h : t.types[key]? = none) (made : TypeObject) (ids : ObjectIds) :
    t.Keeps { types := t.types.insert key made, ids } := by
  intro other type hother
  have hne : key ≠ other := by
    rintro rfl
    simp [h] at hother
  rw [Std.HashMap.getElem?_insert, if_neg (by simpa using hne)]
  exact hother

theorem Numbered.insert {keys : List TypeKey} (h : Numbered first keys t) (hnew : t.types[key]? = none)
    (plan : TypePlan) :
    Numbered first (keys ++ [key])
      { types := t.types.insert key (plan.make t.ids.next), ids := ⟨t.ids.next + ObjectIds.stride⟩ } := by
  have hmem : key ∉ t.types := by simpa using hnew
  refine ⟨?_, ?_, fun i other hi => ?_, fun other type hother => ?_⟩
  · have hstride : ObjectIds.stride.toNat = 0x28 := by decide
    rw [UInt64.toNat_add, h.next_eq, hstride, List.length_append, List.length_singleton]
    omega
  · rw [Std.HashMap.size_insert, if_neg hmem, h.size_eq, List.length_append, List.length_singleton]
  · rw [List.getElem?_append] at hi
    split at hi
    · obtain ⟨type, htype, hid⟩ := h.entry i other hi
      exact ⟨type, keeps_insert hnew _ _ other type htype, hid⟩
    next hlast =>
      obtain ⟨hindex, rfl⟩ : i = keys.length ∧ key = other := by
        have hlt := (List.getElem?_eq_some_iff.mp hi).1
        simp only [List.length_singleton] at hlt
        obtain rfl : i = keys.length := by omega
        simpa using hi
      exact ⟨_, Std.HashMap.getElem?_insert_self, by rw [plan.id_make, hindex, h.next_eq]⟩
  · rw [Std.HashMap.getElem?_insert] at hother
    split at hother
    next hsame => simp [eq_of_beq hsame]
    next => exact List.mem_append_left _ (h.covers other type hother)

theorem size_intern_le (t : TypeTable) (key : TypeKey) (make : ObjectId → TypeObject) :
    (t.intern key make).1.types.size ≤ t.types.size + 1 := by
  cases h : t.types[key]? with
  | some type =>
    rw [intern_of_known h]
    exact Nat.le_succ _
  | none =>
    rw [intern_of_new h]
    exact Std.HashMap.size_insert_le

/-- The type of a description, made now or before. -/
theorem WellMade.intern (h : WellMade first t) (key : TypeKey) (plan : TypePlan) (hplan : t.plan? key = some plan) :
    WellMade first (t.intern key plan.make).1 ∧ t.Keeps (t.intern key plan.make).1 ∧
      (t.intern key plan.make).1.types[key]? = some (t.intern key plan.make).2 := by
  cases hknown : t.types[key]? with
  | some type =>
    rw [intern_of_known hknown]
    exact ⟨h, .refl t, hknown⟩
  | none =>
    rw [intern_of_new hknown]
    have hkeeps := keeps_insert hknown (plan.make t.ids.next) ⟨t.ids.next + ObjectIds.stride⟩
    refine ⟨⟨fun other type hother => ?_, ?_⟩, hkeeps, Std.HashMap.getElem?_insert_self⟩
    · rw [Std.HashMap.getElem?_insert] at hother
      split at hother
      next hsame =>
        cases eq_of_beq hsame
        exact ⟨plan, hkeeps.plan? hplan, by rw [← Option.some.inj hother, plan.id_make]⟩
      next =>
        obtain ⟨made, hmade, heq⟩ := h.planned other type hother
        exact ⟨made, hkeeps.plan? hmade, heq⟩
    · obtain ⟨keys, hkeys⟩ := h.numbered
      exact ⟨_, hkeys.insert hknown plan⟩

theorem WellMade.classNamed (h : WellMade first t) (name : String) :
    WellMade first (t.classNamed name).1 ∧ t.Keeps (t.classNamed name).1 ∧
      (t.classNamed name).1.types[TypeKey.theClass name]? = some (t.classNamed name).2 :=
  h.intern (.theClass name) (.named .ofClasses name) rfl

/-- Two types have one number only if they are of one description. -/
theorem WellMade.key_eq (h : WellMade first t) (few : t.types.size < 2 ^ 60) {other : TypeKey} {a b : TypeObject}
    (ha : t.types[key]? = some a) (hb : t.types[other]? = some b) (same : a.id = b.id) : key = other := by
  obtain ⟨keys, hkeys⟩ := h.numbered
  obtain ⟨i, hi⟩ := List.mem_iff_getElem?.mp (hkeys.covers key a ha)
  obtain ⟨j, hj⟩ := List.mem_iff_getElem?.mp (hkeys.covers other b hb)
  have hid : ∀ {i : Nat} {key : TypeKey} {type : TypeObject}, keys[i]? = some key → t.types[key]? = some type →
      i < 2 ^ 61 ∧ type.id.toNat = (first + 0x28 * i) % 2 ^ 64 := by
    intro i key type hi htype
    obtain ⟨made, hmade, hid⟩ := hkeys.entry i key hi
    have hlt := (List.getElem?_eq_some_iff.mp hi).1
    have hsize := hkeys.size_eq
    exact ⟨by omega, Option.some.inj (htype.symm.trans hmade) ▸ hid⟩
  obtain ⟨hilt, hia⟩ := hid hi ha
  obtain ⟨hjlt, hjb⟩ := hid hj hb
  rw [same] at hia
  rw [index_inj hilt hjlt (hia.symm.trans hjb), hj] at hi
  exact (Option.some.inj hi).symm

theorem WellMade.describes (h : WellMade first t) {type : TypeObject} (htype : t.types[key]? = some type) :
    key.Describes type := by
  have hclass : ∀ {name owner}, t.types[TypeKey.theClass name]? = some owner →
      owner = .named owner.id .ofClasses name := by
    intro name owner howner
    obtain ⟨plan, hplan, heq⟩ := h.planned _ owner howner
    obtain rfl : TypePlan.named .ofClasses name = plan := Option.some.inj hplan
    exact heq
  obtain ⟨plan, hplan, heq⟩ := h.planned key type htype
  cases key with
  | theClass name => exact ⟨_, hclass htype⟩
  | singletonOfClass name | singletonOfInstance name =>
    obtain ⟨owner, howner, rfl⟩ := Option.map_eq_some_iff.mp hplan
    rw [hclass howner] at heq
    exact ⟨_, _, heq⟩
  | theModule | anonymousClass | anonymousModule =>
    cases Option.some.inj hplan
    exact ⟨_, heq⟩

/-- A singleton hangs on the class of the table. -/
theorem WellMade.owner_eq (h : WellMade first t) {ownerKey : TypeKey} {type : TypeObject}
    (hkey : key.owner? = some ownerKey) (htype : t.types[key]? = some type) : type.owner? = t.types[ownerKey]? := by
  obtain ⟨plan, hplan, heq⟩ := h.planned key type htype
  rw [heq, plan.owner?_make]
  cases key with
  | singletonOfClass name | singletonOfInstance name =>
    cases hkey
    obtain ⟨owner, howner, rfl⟩ := Option.map_eq_some_iff.mp hplan
    exact howner.symm
  | _ => cases hkey

theorem mem_all {type : TypeObject} : type ∈ t.all ↔ ∃ key : TypeKey, t.types[key]? = some type := by
  simp [all, Std.HashMap.mem_toList_iff_getElem?_eq_some]

/-- The types of a table with fewer than `2 ^ 60` of them have numbers of their own. -/
theorem WellMade.apart (h : WellMade first t) (few : t.types.size < 2 ^ 60) : Apart t.all where
  owner_mem type hmem owner howner := by
    obtain ⟨key, htype⟩ := mem_all.mp hmem
    have hdescribes := h.describes htype
    cases hkey : key.owner? with
    | some ownerKey => exact mem_all.mpr ⟨ownerKey, by rw [← h.owner_eq hkey htype, howner]⟩
    | none =>
      cases key with
      | singletonOfClass | singletonOfInstance => cases hkey
      | _ =>
        obtain ⟨_, rfl⟩ := hdescribes
        cases howner
  eq_of_id a ha b hb same := by
    obtain ⟨key, ha⟩ := mem_all.mp ha
    obtain ⟨other, hb⟩ := mem_all.mp hb
    obtain rfl := h.key_eq few ha hb same
    exact Option.some.inj (ha.symm.trans hb)

/-! ### Notifications -/

/-- The receiver that a description stands for. -/
def receiver? (t : TypeTable) (r : ScriptReceiver) : Option Receiver :=
  match r.key? with
  | none => some .unknown
  | some key => t.types[key]?.map r.around

/-- The defining class that is named, if one is. -/
def definedOn? (t : TypeTable) : Option String → Option (Option TypeObject)
  | none => some none
  | some name => t.types[TypeKey.theClass name]?.map some

/-- A notification has what the types of a table are for an event. -/
structure Renders (t : TypeTable) (event : ScriptEvent) (n : Notification) : Prop where
  receiver : t.receiver? event.receiver = some n.receiver
  definedOn : t.definedOn? event.definedOn = some n.definedOn
  method : n.method = event.method

theorem Keeps.receiver? (h : t.Keeps u) {r : ScriptReceiver} {value : Receiver} (hr : t.receiver? r = some value) :
    u.receiver? r = some value := by
  unfold TypeTable.receiver? at *
  split at hr
  · exact hr
  · obtain ⟨type, htype, rfl⟩ := Option.map_eq_some_iff.mp hr
    exact Option.map_eq_some_iff.mpr ⟨type, h _ _ htype, rfl⟩

theorem Keeps.definedOn? (h : t.Keeps u) {name? : Option String} {type? : Option TypeObject}
    (hd : t.definedOn? name? = some type?) : u.definedOn? name? = some type? := by
  cases name? with
  | none => exact hd
  | some name =>
    obtain ⟨type, htype, rfl⟩ := Option.map_eq_some_iff.mp hd
    exact Option.map_eq_some_iff.mpr ⟨type, h _ _ htype, rfl⟩

theorem Renders.of_keeps {event : ScriptEvent} {n : Notification} (h : t.Renders event n) (keeps : t.Keeps u) :
    u.Renders event n :=
  ⟨keeps.receiver? h.receiver, keeps.definedOn? h.definedOn, h.method⟩

theorem WellMade.receiver (h : WellMade first t) (r : ScriptReceiver) :
    WellMade first (t.receiver r).1 ∧ t.Keeps (t.receiver r).1 ∧
      (t.receiver r).1.receiver? r = some (t.receiver r).2 := by
  have found : ∀ {u : TypeTable} {key type}, r.key? = some key → u.types[key]? = some type →
      u.receiver? r = some (r.around type) := by
    intro u key type hkey htype
    simp only [TypeTable.receiver?, hkey, htype, Option.map_some]
  cases r with
  | instanceOf name | theClass name =>
    obtain ⟨hmade, hkeeps, htype⟩ := h.classNamed name
    exact ⟨hmade, hkeeps, found rfl htype⟩
  | theModule name =>
    obtain ⟨hmade, hkeeps, htype⟩ := h.intern (.theModule name) (.named .ofModules name) rfl
    exact ⟨hmade, hkeeps, found rfl htype⟩
  | singletonOfClass name =>
    obtain ⟨hclass, howner, hname⟩ := h.classNamed name
    obtain ⟨hmade, hkeeps, htype⟩ := hclass.intern (.singletonOfClass name)
      (.singleton (.typeItself (t.classNamed name).2)) (by rw [TypeTable.plan?, hname, Option.map_some])
    exact ⟨hmade, howner.trans hkeeps, found rfl htype⟩
  | singletonOfInstance name =>
    obtain ⟨hclass, howner, hname⟩ := h.classNamed name
    obtain ⟨hmade, hkeeps, htype⟩ := hclass.intern (.singletonOfInstance name)
      (.singleton (.instanceOf (t.classNamed name).2)) (by rw [TypeTable.plan?, hname, Option.map_some])
    exact ⟨hmade, howner.trans hkeeps, found rfl htype⟩
  | anonymousClass number =>
    obtain ⟨hmade, hkeeps, htype⟩ := h.intern (.anonymousClass number) (.anonymous .ofClasses) rfl
    exact ⟨hmade, hkeeps, found rfl htype⟩
  | anonymousModule number =>
    obtain ⟨hmade, hkeeps, htype⟩ := h.intern (.anonymousModule number) (.anonymous .ofModules) rfl
    exact ⟨hmade, hkeeps, found rfl htype⟩
  | unknown => exact ⟨h, .refl t, rfl⟩

theorem WellMade.notification (h : WellMade first t) (kind : ScriptEventKind) (event : ScriptEvent) :
    WellMade first (t.notification kind event).1 ∧ t.Keeps (t.notification kind event).1 ∧
      (t.notification kind event).1.Renders event (t.notification kind event).2 := by
  obtain ⟨hreceived, hkeeps, hreceiver⟩ := h.receiver event.receiver
  unfold TypeTable.notification
  cases hdefined : event.definedOn with
  | none => exact ⟨hreceived, hkeeps, hreceiver, by rw [hdefined]; rfl, rfl⟩
  | some name =>
    obtain ⟨hmade, hmore, htype⟩ := hreceived.classNamed name
    refine ⟨hmade, hkeeps.trans hmore, hmore.receiver? hreceiver, ?_, rfl⟩
    rw [hdefined]
    exact Option.map_eq_some_iff.mpr ⟨_, htype, rfl⟩

theorem size_classNamed_le (t : TypeTable) (name : String) : (t.classNamed name).1.types.size ≤ t.types.size + 1 :=
  t.size_intern_le _ _

theorem size_receiver_le (t : TypeTable) (r : ScriptReceiver) : (t.receiver r).1.types.size ≤ t.types.size + 2 := by
  have once : ∀ key make, (t.intern key make).1.types.size ≤ t.types.size + 2 := fun key make =>
    (t.size_intern_le key make).trans (Nat.le_succ _)
  have twice : ∀ name key make, ((t.classNamed name).1.intern key make).1.types.size ≤ t.types.size + 2 :=
    fun name key make => (size_intern_le _ key make).trans (Nat.succ_le_succ (t.size_classNamed_le name))
  cases r with
  | instanceOf name | theClass name => exact once (.theClass name) (.named · .ofClasses name)
  | theModule name => exact once (.theModule name) (.named · .ofModules name)
  | singletonOfClass name => exact twice name (.singletonOfClass name) (.singletonOfType · (t.classNamed name).2)
  | singletonOfInstance name =>
    exact twice name (.singletonOfInstance name) (.singletonOfInstance · (t.classNamed name).2)
  | anonymousClass number => exact once (.anonymousClass number) (.anonymous · .ofClasses)
  | anonymousModule number => exact once (.anonymousModule number) (.anonymous · .ofModules)
  | unknown => exact Nat.le_add_right t.types.size 2

/-- An event makes at most its receiver's type, the class under a singleton and the defining class. -/
theorem size_notification_le (t : TypeTable) (kind : ScriptEventKind) (event : ScriptEvent) :
    (t.notification kind event).1.types.size ≤ t.types.size + 3 := by
  have hreceiver := t.size_receiver_le event.receiver
  unfold TypeTable.notification
  cases event.definedOn with
  | none => exact hreceiver.trans (Nat.le_succ _)
  | some name => exact (size_classNamed_le _ name).trans (Nat.succ_le_succ hreceiver)

end
end TypeTable

/-! ### References -/

/-- The descriptions of types in an event: of the receiver's type, of the class that a singleton hangs on, and of the
class that defines the method. -/
def ScriptEvent.keys (event : ScriptEvent) : List TypeKey :=
  event.receiver.key?.toList ++ (event.receiver.key?.bind TypeKey.owner?).toList ++
    (event.definedOn.map TypeKey.theClass).toList

/-- What a notification has for a description in its event. -/
inductive Refers (event : ScriptEvent) (n : Notification) : TypeKey → TypeObject → Prop
  | receiver {key : TypeKey} {type : TypeObject} : event.receiver.key? = some key → n.receiver.type? = some type →
      Refers event n key type
  | attached {key ownerKey : TypeKey} {type owner : TypeObject} : event.receiver.key? = some key →
      key.owner? = some ownerKey → n.receiver.type? = some type → type.owner? = some owner →
      Refers event n ownerKey owner
  | defining {name : String} {type : TypeObject} : event.definedOn = some name → n.definedOn = some type →
      Refers event n (.theClass name) type

theorem ScriptReceiver.type?_around {r : ScriptReceiver} {key : TypeKey} (h : r.key? = some key) (type : TypeObject) :
    (r.around type).type? = some type := by
  cases r with
  | unknown => cases h
  | _ => rfl

/-- A call that is described to be on a type belongs to what stands behind it, unless it makes an instance. -/
theorem ScriptReceiver.owner_around {r : ScriptReceiver} {key : TypeKey} (h : r.key? = some key) (type : TypeObject)
    {method : String} (hmethod : method ≠ constructorMethod) (definedOn : Option TypeObject) :
    (ownerOf (r.around type) method definedOn).entity = type.behindSingletons.entity ∧
      (NameQuery.owner (r.around type) method definedOn).named? = some type.behindSingletons := by
  cases r with
  | unknown => cases h
  | instanceOf => exact ⟨rfl, rfl⟩
  | _ => simp [around, ownerOf, NameQuery.named?, hmethod]

namespace TypeTable.Renders
variable {first : Nat} {t : TypeTable} {event other : ScriptEvent} {n m : Notification} {key : TypeKey}

theorem exists_around (h : t.Renders event n) (hkey : event.receiver.key? = some key) :
    ∃ type, t.types[key]? = some type ∧ n.receiver = event.receiver.around type := by
  have hreceiver := h.receiver
  simp only [receiver?, hkey] at hreceiver
  obtain ⟨type, htype, heq⟩ := Option.map_eq_some_iff.mp hreceiver
  exact ⟨type, htype, heq.symm⟩

theorem exists_defining (h : t.Renders event n) {name : String} (hname : event.definedOn = some name) :
    ∃ type, t.types[TypeKey.theClass name]? = some type ∧ n.definedOn = some type := by
  have hdefined := h.definedOn
  rw [hname] at hdefined
  obtain ⟨type, htype, heq⟩ := Option.map_eq_some_iff.mp hdefined
  exact ⟨type, htype, heq.symm⟩

/-- A notification refers to the types of the table. -/
theorem of_refers (h : t.Renders event n) (made : t.WellMade first) {type : TypeObject}
    (refers : Refers event n key type) : t.types[key]? = some type := by
  cases refers with
  | receiver hkey htype =>
    obtain ⟨known, hknown, heq⟩ := h.exists_around hkey
    rw [heq, ScriptReceiver.type?_around hkey] at htype
    rw [hknown, htype]
  | attached hkey howner htype hattached =>
    obtain ⟨known, hknown, heq⟩ := h.exists_around hkey
    rw [heq, ScriptReceiver.type?_around hkey] at htype
    cases htype
    rw [← made.owner_eq howner hknown, hattached]
  | defining hname htype =>
    obtain ⟨known, hknown, heq⟩ := h.exists_defining hname
    rw [hknown, ← heq, htype]

theorem exists_refers (h : t.Renders event n) (made : t.WellMade first) (hkey : key ∈ event.keys) :
    ∃ type, Refers event n key type := by
  simp only [ScriptEvent.keys, List.mem_append, Option.mem_toList] at hkey
  rcases hkey with (hkey | hkey) | hkey
  · obtain ⟨type, -, heq⟩ := h.exists_around hkey
    exact ⟨type, .receiver hkey (by rw [heq, ScriptReceiver.type?_around hkey])⟩
  · obtain ⟨inner, hinner, howner⟩ := Option.bind_eq_some_iff.mp hkey
    obtain ⟨type, htype, heq⟩ := h.exists_around hinner
    obtain ⟨owner, hattached⟩ : ∃ owner, type.owner? = some owner := by
      have hdescribes := made.describes htype
      cases inner with
      | singletonOfClass | singletonOfInstance =>
        obtain ⟨_, _, rfl⟩ := hdescribes
        exact ⟨_, rfl⟩
      | _ => cases howner
    exact ⟨owner, .attached hinner howner (by rw [heq, ScriptReceiver.type?_around hinner]) hattached⟩
  · obtain ⟨name, hname, rfl⟩ := Option.map_eq_some_iff.mp hkey
    obtain ⟨type, -, heq⟩ := h.exists_defining hname
    exact ⟨type, .defining hname heq⟩

end TypeTable.Renders

/-! ### Moves -/

namespace Replay

/-- A move is that of an event, and a notification is handed to the session in it. -/
def Move.Delivers (x : Move) (event : ScriptEvent) (n : Notification) : Prop :=
  (∃ kind, x.operation? = some (.event kind event)) ∧ Action.deliver n ∈ x.actions

section
variable {first : Nat} {r t : Replay} {x : Move} {past : List Move}

theorem types_of_quiet (r : Replay) (position : Nat) {operation : Operation} (h : operation.isEvent = false) :
    (r.step position operation).1.types = r.types := by
  cases operation with
  | event => cases h
  | fork process =>
    unfold Replay.step fork
    dsimp only
    split <;> rfl
  | _ => rfl

theorem types_of_event (r : Replay) (position : Nat) (kind : ScriptEventKind) (event : ScriptEvent) :
    (r.step position (.event kind event)).1.types =
      if r.session.host.enabled then (r.types.notification kind event).1 else r.types := by
  show (deliver { r with totals := _ } kind event).types = _
  unfold deliver
  dsimp only
  split <;> rfl

/-- No event makes an attentive session switch delivery off. -/
theorem enabled_after_event (hs : r.session.Sound) (h : r.session.attentive = true) (position : Nat)
    (kind : ScriptEventKind) (event : ScriptEvent) :
    (r.step position (.event kind event)).1.session.host.enabled = r.session.host.enabled := by
  show (deliver { r with totals := _ } kind event).session.host.enabled = _
  rw [deliver_session, Replay.actions]
  split
  · have k := Session.deliver_standing
      (s := { r.session with host := r.session.host.inThread (event.thread.getD mainThread) }) ⟨hs.stack, hs.rooted⟩ h
      (r.types.notification kind event).2
    have hsame := congrArg Host.enabled k.host
    exact hsame
  · rfl

theorem exists_event {operation : Operation} (h : operation.isEvent = true) :
    ∃ kind event, operation = .event kind event := by
  cases operation with
  | event kind event => exact ⟨kind, event, rfl⟩
  | _ => cases h

/-- What a move does to the types, and how it renders an event. -/
theorem Makes.types (h : r.Makes x) (made : r.types.WellMade first) :
    x.after.types.WellMade first ∧ r.types.Keeps x.after.types ∧
      ∀ event n, x.Delivers event n → x.after.types.Renders event n := by
  cases h with
  | beginning script =>
    refine ⟨made, .refl _, ?_⟩
    rintro event n ⟨⟨_, hevent⟩, -⟩
    cases hevent
  | operation position operation =>
    cases hquiet : operation.isEvent with
    | false =>
      have hsame : (r.move position operation).after.types = r.types := types_of_quiet r position hquiet
      rw [hsame]
      refine ⟨made, .refl _, ?_⟩
      rintro event n ⟨⟨kind, hevent⟩, -⟩
      rw [Option.some.inj hevent] at hquiet
      cases hquiet
    | true =>
      obtain ⟨kind, event, rfl⟩ := exists_event hquiet
      have hafter := types_of_event r position kind event
      have hactions : (r.move position (.event kind event)).actions = r.actions (.event kind event) := rfl
      change (r.move position (.event kind event)).after.types = _ at hafter
      rw [hafter]
      split
      next hon =>
        obtain ⟨hmade, hkeeps, hrenders⟩ := made.notification kind event
        refine ⟨hmade, hkeeps, ?_⟩
        rintro other n ⟨⟨_, hother⟩, hn⟩
        cases Option.some.inj hother
        rw [hactions, Replay.actions, if_pos hon] at hn
        obtain rfl : n = (r.types.notification kind event).2 := by simpa using hn
        exact hrenders
      next hoff =>
        refine ⟨made, .refl _, ?_⟩
        rintro other n ⟨-, hn⟩
        rw [hactions, Replay.actions, if_neg hoff] at hn
        cases hn

theorem Makes.delivers (h : r.Makes x) {kind : ScriptEventKind} {event : ScriptEvent}
    (hevent : x.operation? = some (.event kind event)) (on : x.before.session.host.enabled = true) :
    ∃ n, x.Delivers event n := by
  cases h with
  | beginning => cases hevent
  | operation position operation =>
    obtain rfl : operation = .event kind event := Option.some.inj hevent
    have hon : r.session.host.enabled = true := on
    refine ⟨(r.types.notification kind event).2, ⟨kind, rfl⟩, ?_⟩
    show .deliver (r.types.notification kind event).2 ∈ r.actions (.event kind event)
    rw [Replay.actions, if_pos hon]
    simp

theorem Makes.delivers_of_step (h : r.Makes x) {y : Step} (hy : y ∈ x.steps) {n : Notification}
    (hn : y.action = .deliver n) : ∃ event, x.Delivers event n := by
  have simple : ∀ action ∈ x.actions, action.isSimple = true := fun action ha => (h.suits action ha).simple
  obtain ⟨t, action, ha, rfl⟩ := exists_of_mem_stepsOfAll x.before.session simple hy
  obtain rfl : action = .deliver n := hn
  have hevent := (h.suits _ ha).event rfl
  cases hoperation : x.operation? with
  | none => simp [hoperation] at hevent
  | some operation =>
    have hquiet : operation.isEvent = true := by simpa [hoperation] using hevent
    obtain ⟨kind, event, rfl⟩ := exists_event hquiet
    exact ⟨event, ⟨kind, hoperation⟩, ha⟩

theorem Makes.types_size_le (h : r.Makes x) : x.after.types.types.size ≤ r.types.types.size + 3 := by
  cases h with
  | beginning => exact Nat.le_add_right _ _
  | operation position operation =>
    show (r.step position operation).1.types.types.size ≤ _
    cases hquiet : operation.isEvent with
    | false =>
      rw [types_of_quiet r position hquiet]
      exact Nat.le_add_right _ _
    | true =>
      obtain ⟨kind, event, rfl⟩ := exists_event hquiet
      rw [types_of_event]
      split
      · exact r.types.size_notification_le kind event
      · exact Nat.le_add_right r.types.types.size 3

theorem Plays.types_size_le (h : Plays r past t) : t.types.types.size ≤ r.types.types.size + 3 * past.length := by
  induction h with
  | nil => simp
  | cons hx _ ih =>
    have hone := hx.types_size_le
    rw [List.length_cons]
    omega

theorem Plays.exists_makes (h : Plays r past t) : ∀ x ∈ past, ∃ u : Replay, u.Makes x := by
  induction h with
  | nil => simp
  | cons hx _ ih => exact List.forall_mem_cons.mpr ⟨⟨_, hx⟩, ih⟩

/-- The types after some moves tell how every event in them was rendered. -/
theorem Plays.types (h : Plays r past t) (made : r.types.WellMade first) :
    t.types.WellMade first ∧ r.types.Keeps t.types ∧
      ∀ x ∈ past, ∀ event n, x.Delivers event n → t.types.Renders event n := by
  induction h with
  | nil => exact ⟨made, .refl _, by simp⟩
  | cons hx _ ih =>
    obtain ⟨hmade, hkeeps, hrenders⟩ := hx.types made
    obtain ⟨hlast, hmore, hlater⟩ := ih hmade
    exact ⟨hlast, hkeeps.trans hmore, List.forall_mem_cons.mpr
      ⟨fun event n hn => (hrenders event n hn).of_keeps hmore, hlater⟩⟩

end
end Replay

/-! ### Every sequence of runs -/

/-- Whether a receiver is a type without a name. -/
def ScriptReceiver.isAnonymous (r : ScriptReceiver) : Bool := r.key?.any TypeKey.isAnonymous

theorem ScriptReceiver.eq_of_key? {r r' : ScriptReceiver} (h : r.isAnonymous = true) (same : r.key? = r'.key?) :
    r = r' := by
  cases r with
  | anonymousClass | anonymousModule =>
    cases r' <;> cases same
    rfl
  | _ => cases h

/-- The receivers that are known by a class of a name. -/
def ScriptReceiver.ofClass (name : String) : List ScriptReceiver :=
  [.instanceOf name, .theClass name, .singletonOfClass name, .singletonOfInstance name]

/-- A notification has a type for each description of its event, of the sort that is described, and the name of a class
names the entity, whatever names a session keeps. -/
structure AsDescribed (event : ScriptEvent) (n : Notification) : Prop where
  receiver : event.receiver = .unknown ∧ n.receiver = .unknown ∨
    ∃ key type, Refers event n key type ∧ n.receiver = event.receiver.around type
  refers : ∀ key ∈ event.keys, ∃ type, Refers event n key type
  sort : ∀ key type, Refers event n key type → key.Describes type
  entity : ∀ name, event.receiver ∈ ScriptReceiver.ofClass name → event.method ≠ some "initialize" →
    n.calledMethod.entity = name ∧ ∀ cache : NameCache, (cache.methodOf n).2.entity = name

/-- Two notifications have the same for the same descriptions, also if a cache is asked for the second one's method that
was asked for the first one's before, and different types for different descriptions if one of them has a name. -/
structure SameTypes (event : ScriptEvent) (n : Notification) (other : ScriptEvent) (m : Notification) : Prop where
  receiver : event.receiver = other.receiver → n.receiver = m.receiver
  type : ∀ key a b, Refers event n key a → Refers other m key b → a = b
  named : ∀ key key' a b, Refers event n key a → Refers other m key' b → key ≠ key' → key.isAnonymous = false → a ≠ b
  method : event.receiver = other.receiver → event.method = other.method → event.definedOn = other.definedOn →
    n.calledMethod = m.calledMethod ∧ ∀ (cache : NameCache) (queries : List NameQuery),
      (((cache.methodOf n).1.askAll queries).1.methodOf m).2 = (cache.methodOf n).2

/-- Two notifications have types with different numbers for different descriptions. They are about types of a list, and
caches that were asked about these types name their methods as they are named without a cache, so that types without a
name are told apart by the names that are made for them. -/
structure OtherTypes (types : List TypeObject) (event : ScriptEvent) (n : Notification) (other : ScriptEvent)
    (m : Notification) : Prop where
  type : ∀ key key' a b, Refers event n key a → Refers other m key' b → key ≠ key' → a.id ≠ b.id
  about : n.query.About types ∧ m.query.About types
  cached : ∀ cache, NameCache.Asked types cache →
    (cache.methodOf n).2 = n.calledMethod ∧ (cache.methodOf m).2 = m.calledMethod
  anonymous : event.receiver.isAnonymous = true → other.receiver.isAnonymous = true →
    event.method ≠ some "initialize" → other.method ≠ some "initialize" →
      (n.calledMethod.entity = m.calledMethod.entity ↔ event.receiver = other.receiver) ∧
      ∀ cache cache', NameCache.Asked types cache → NameCache.Asked types cache' →
        ((cache.methodOf n).2.entity = (cache'.methodOf m).2.entity ↔ event.receiver = other.receiver)

namespace TypeTable.Renders
variable {first : Nat} {t : TypeTable} {event other : ScriptEvent} {n m : Notification}

theorem methodName_eq (h : t.Renders event n) : n.methodName = event.method.getD unknownName := by
  rw [Notification.methodName, h.method]

theorem methodName_ne (h : t.Renders event n) (hmethod : event.method ≠ some "initialize") :
    n.methodName ≠ constructorMethod := by
  rw [h.methodName_eq]
  cases hm : event.method with
  | none => decide
  | some name =>
    rintro rfl
    exact hmethod hm

theorem entity_eq (h : t.Renders event n) {key : TypeKey} (hkey : event.receiver.key? = some key)
    (hmethod : event.method ≠ some "initialize") :
    ∃ type, t.types[key]? = some type ∧ n.calledMethod.entity = type.behindSingletons.entity ∧
      n.query.named? = some type.behindSingletons := by
  obtain ⟨type, htype, heq⟩ := h.exists_around hkey
  have howner := ScriptReceiver.owner_around hkey type (h.methodName_ne hmethod) n.definedOn
  rw [← heq] at howner
  exact ⟨type, htype, howner⟩

theorem asDescribed (h : t.Renders event n) (made : t.WellMade first) : AsDescribed event n where
  receiver := by
    cases hkey : event.receiver.key? with
    | none =>
      have hreceiver := h.receiver
      simp only [receiver?, hkey] at hreceiver
      refine .inl ⟨?_, (Option.some.inj hreceiver).symm⟩
      cases hr : event.receiver <;> rw [hr] at hkey <;> first | rfl | cases hkey
    | some key =>
      obtain ⟨type, -, heq⟩ := h.exists_around hkey
      exact .inr ⟨key, type, .receiver hkey (by rw [heq, ScriptReceiver.type?_around hkey]), heq⟩
  refers _ hkey := h.exists_refers made hkey
  sort _ _ refers := made.describes (h.of_refers made refers)
  entity name hname hmethod := by
    -- What stands behind the type has a name, so that no cache is looked into.
    have named : ∀ {key}, event.receiver.key? = some key →
        (∀ type, key.Describes type → type.behindSingletons.name? = some name) →
        n.calledMethod.entity = name ∧ ∀ cache : NameCache, (cache.methodOf n).2.entity = name := by
      intro key hkey hdescribes
      obtain ⟨type, htype, hentity, hnamed⟩ := h.entity_eq hkey hmethod
      have own := hdescribes type (made.describes htype)
      have hrule : n.calledMethod.entity = name := by rw [hentity, TypeObject.entity, own, Option.getD_some]
      refine ⟨hrule, fun cache => ?_⟩
      rw [NameCache.methodOf_snd, hrule]
      intro behind hbehind unnamed
      rw [← Option.some.inj (hnamed.symm.trans hbehind), own] at unnamed
      cases unnamed
    simp only [ScriptReceiver.ofClass, List.mem_cons, List.not_mem_nil, or_false] at hname
    rcases hname with hname | hname | hname | hname <;> rw [hname] at named
    · exact named rfl (by rintro _ ⟨id, rfl⟩; rfl)
    · exact named rfl (by rintro _ ⟨id, rfl⟩; rfl)
    · exact named rfl (by rintro _ ⟨id, owner, rfl⟩; rfl)
    · exact named rfl (by rintro _ ⟨id, owner, rfl⟩; rfl)

theorem sameTypes (h : t.Renders event n) (h' : t.Renders other m) (made : t.WellMade first) :
    SameTypes event n other m := by
  have hreceivers : event.receiver = other.receiver → n.receiver = m.receiver := by
    intro same
    have hreceiver := h.receiver
    rw [same, h'.receiver] at hreceiver
    exact (Option.some.inj hreceiver).symm
  refine ⟨hreceivers, fun key a b ha hb => ?_, fun key key' a b ha hb hne named same => ?_,
    fun same hmethod hdefined => ?_⟩
  · exact Option.some.inj ((h.of_refers made ha).symm.trans (h'.of_refers made hb))
  · have hdescribes := made.describes (h'.of_refers made hb)
    rw [← same] at hdescribes
    exact hne ((made.describes (h.of_refers made ha)).key_eq hdescribes named)
  · have hdefinedOn := h.definedOn
    rw [hdefined, h'.definedOn] at hdefinedOn
    have hname : n.methodName = m.methodName := by rw [h.methodName_eq, h'.methodName_eq, hmethod]
    have hquery : n.query = m.query := by
      rw [Notification.query, Notification.query, hreceivers same, hname, Option.some.inj hdefinedOn]
    refine ⟨?_, NameCache.methodOf_again hquery⟩
    simp only [Notification.calledMethod, Notification.owner, hreceivers same, hname, Option.some.inj hdefinedOn]

/-- A type without a name is named after its number. -/
theorem exists_generated (h : t.Renders event n) (made : t.WellMade first) (unnamed : event.receiver.isAnonymous = true)
    (hmethod : event.method ≠ some "initialize") :
    ∃ key type, event.receiver.key? = some key ∧ t.types[key]? = some type ∧
      n.calledMethod.entity = generatedName type.metatype type.id := by
  have generated : ∀ {key}, event.receiver.key? = some key →
      (∀ type, key.Describes type → type.behindSingletons.entity = generatedName type.metatype type.id) →
      ∃ key type, event.receiver.key? = some key ∧ t.types[key]? = some type ∧
        n.calledMethod.entity = generatedName type.metatype type.id := by
    intro key hkey hdescribes
    obtain ⟨type, htype, hentity, -⟩ := h.entity_eq hkey hmethod
    exact ⟨key, type, hkey, htype, hentity.trans (hdescribes type (made.describes htype))⟩
  cases hreceiver : event.receiver with
  | anonymousClass | anonymousModule =>
    rw [hreceiver] at generated
    exact generated rfl (by rintro _ ⟨id, rfl⟩; rfl)
  | _ =>
    rw [hreceiver] at unnamed
    cases unnamed

theorem about (h : t.Renders event n) : n.query.About t.all := by
  constructor
  · intro type htype
    cases hkey : event.receiver.key? with
    | none =>
      have hreceiver := h.receiver
      simp only [receiver?, hkey] at hreceiver
      rw [← Option.some.inj hreceiver] at htype
      cases htype
    | some key =>
      obtain ⟨known, hknown, heq⟩ := h.exists_around hkey
      rw [heq, ScriptReceiver.type?_around hkey] at htype
      exact mem_all.mpr ⟨key, hknown.trans htype⟩
  · intro type htype
    cases hname : event.definedOn with
    | none =>
      have hdefined := h.definedOn
      rw [hname] at hdefined
      rw [← Option.some.inj hdefined] at htype
      cases htype
    | some name =>
      obtain ⟨known, hknown, heq⟩ := h.exists_defining hname
      exact mem_all.mpr ⟨_, hknown.trans (heq.symm.trans htype)⟩

theorem otherTypes (h : t.Renders event n) (h' : t.Renders other m) (made : t.WellMade first)
    (few : t.types.size < 2 ^ 60) : OtherTypes t.all event n other m := by
  have apart := made.apart few
  have cached : ∀ cache, NameCache.Asked t.all cache →
      (cache.methodOf n).2 = n.calledMethod ∧ (cache.methodOf m).2 = m.calledMethod := by
    intro cache asked
    have hkeeps := asked.keeps apart
    exact ⟨NameCache.methodOf_snd (hkeeps.named apart h.about), NameCache.methodOf_snd (hkeeps.named apart h'.about)⟩
  refine ⟨fun key key' a b ha hb hne same => ?_, ⟨h.about, h'.about⟩, cached, fun unnamed unnamed' hmethod hmethod' => ?_⟩
  · exact hne (made.key_eq few (h.of_refers made ha) (h'.of_refers made hb) same)
  · have hentities : n.calledMethod.entity = m.calledMethod.entity ↔ event.receiver = other.receiver := by
      obtain ⟨key, a, hkey, ha, hentity⟩ := h.exists_generated made unnamed hmethod
      obtain ⟨key', b, hkey', hb, hentity'⟩ := h'.exists_generated made unnamed' hmethod'
      rw [hentity, hentity', generatedName_inj]
      constructor
      · rintro ⟨-, same⟩
        obtain rfl := made.key_eq few ha hb same
        exact ScriptReceiver.eq_of_key? unnamed (hkey.trans hkey'.symm)
      · intro same
        rw [same, hkey'] at hkey
        cases hkey
        rw [ha] at hb
        cases hb
        exact ⟨rfl, rfl⟩
    refine ⟨hentities, fun cache cache' asked asked' => ?_⟩
    rw [(cached cache asked).1, (cached cache' asked').2]
    exact hentities

end TypeTable.Renders

/-- In all runs on one session, an event that comes while delivery is on is handed to the session with types that are as
its descriptions say. However far two events are apart, they have the same types for the same descriptions, and with
fewer than `2 ^ 60` types also different types for different ones; then also a session that kept names in a cache would
do in every step what a session does. -/
theorem Replay.types_keep_identity (session : Session) (ids : ObjectIds) (scripts : List (List Operation)) :
    let first : Replay := { session, types := { ids } }
    let moves := first.movesOfAll scripts
    (∀ x ∈ moves, ∀ kind event, x.operation? = some (.event kind event) → x.before.session.host.enabled = true →
      ∃ n, x.Delivers event n) ∧
    (∀ x ∈ moves, ∀ event n, x.Delivers event n → AsDescribed event n) ∧
    (∀ x ∈ moves, ∀ y ∈ moves, ∀ event n other m, x.Delivers event n → y.Delivers other m →
      SameTypes event n other m ∧
        ((first.runAll scripts).types.types.size < 2 ^ 60 →
          OtherTypes (first.runAll scripts).types.all event n other m)) ∧
    ((first.runAll scripts).types.types.size < 2 ^ 60 →
      ∀ past x later, moves.flatMap Move.steps = past ++ x :: later → ∀ n, x.action = .deliver n →
        (x.before.deliverThrough (.after past) n).2 = x.before.deliver n) := by
  intro first moves
  have hplays := plays_movesOfAll first scripts
  obtain ⟨made, -, renders⟩ := hplays.types (TypeTable.WellMade.empty ids)
  refine ⟨fun x hx kind event hevent on => ?_, fun x hx event n hn => (renders x hx event n hn).asDescribed made,
    fun x hx y hy event n other m hn hm => ?_, fun few past x later hsteps n hn => ?_⟩
  · obtain ⟨r, hmakes⟩ := hplays.exists_makes x hx
    exact hmakes.delivers hevent on
  · have hfirst := renders x hx event n hn
    have hsecond := renders y hy other m hm
    exact ⟨hfirst.sameTypes hsecond made, hfirst.otherTypes hsecond made⟩
  · have about : ∀ y ∈ past ++ x :: later, y.About (first.runAll scripts).types.all := by
      intro y hy m hm
      rw [← hsteps] at hy
      obtain ⟨move, hmove, hy⟩ := List.mem_flatMap.mp hy
      obtain ⟨r, hmakes⟩ := hplays.exists_makes move hmove
      obtain ⟨event, hdelivers⟩ := hmakes.delivers_of_step hy hm
      exact (renders move hmove event m hdelivers).about
    exact Session.deliverThrough_after (made.apart few) about hn

/-- Two anonymous classes, told apart by their numbers alone. -/
theorem Replay.types_of_anonymous_classes :
    let event : ScriptEvent := { receiver := .anonymousClass 1, method := some "run" }
    let other : ScriptEvent := { receiver := .anonymousClass 2, method := some "run" }
    let scripts := [[.event .call event, .event .leave other]]
    ∃ s, Session.create {} { destination := { faults := {} }, label := "" } { process := 1 } = .ok s ∧
      let first : Replay := { session := s }
      (first.runAll scripts).types.types.size < 2 ^ 60 ∧
      ∃ x ∈ first.movesOfAll scripts, ∃ y ∈ first.movesOfAll scripts, ∃ n m,
        x.Delivers event n ∧ y.Delivers other m ∧ AsDescribed event n ∧ AsDescribed other m ∧
        SameTypes event n other m ∧ OtherTypes (first.runAll scripts).types.all event n other m := by
  intro event other scripts
  obtain ⟨s, opened⟩ := Session.create_in_memory {} (by decide)
  have fresh := Session.create_fresh opened
  refine ⟨s, opened, ?_⟩
  intro first
  let script : List Operation := [.event .call event, .event .leave other]
  let r := (first.begun script).1
  let x := r.move 1 (.event .call event)
  let y := x.after.move 2 (.event .leave other)
  have hmoves : first.movesOfAll scripts = [first.beginning script, x, y] := by
    rw [movesOfAll, movesOf_of_begun (begun_of_open fresh.isClosed_eq)]
    rfl
  have hx : x ∈ first.movesOfAll scripts := by simp [hmoves]
  have hy : y ∈ first.movesOfAll scripts := by simp [hmoves]
  have few : (first.runAll scripts).types.types.size < 2 ^ 60 := by
    have hsize := (plays_movesOfAll first scripts).types_size_le
    rw [hmoves] at hsize
    exact Nat.lt_of_le_of_lt hsize (by simp [first])
  have howns : s.ownsProcess = true := by
    rw [Session.ownsProcess, fresh.ownership, fresh.host_eq]
    rfl
  have hstarted : r.session = (s.enable.inPhase .tracing).say .tracingStarted := by
    show s.start.1 = _
    rw [Session.start_of_owner fresh.phase howns]
  have hon : x.before.session.host.enabled = true := congrArg (·.host.enabled) hstarted
  have hstays : y.before.session.host.enabled = true := by
    have hattentive : r.session.attentive = true := by
      rw [hstarted]
      exact Session.attentive_iff.mpr ⟨fresh.finalizing, rfl, howns⟩
    have hsound : r.session.Sound := hstarted ▸ ⟨fresh.sound.stack, fresh.sound.rooted⟩
    exact (enabled_after_event hsound hattentive 1 .call event).trans hon
  obtain ⟨delivered, described, identity, -⟩ := types_keep_identity s {} scripts
  obtain ⟨n, hn⟩ := delivered x hx .call event rfl hon
  obtain ⟨m, hm⟩ := delivered y hy .leave other rfl hstays
  obtain ⟨same, different⟩ := identity x hx y hy event n other m hn hm
  exact ⟨few, x, hx, y, hy, n, m, hn, hm, described x hx event n hn, described y hy other m hm, same, different few⟩

end MethodTrace
