import Mathlib.Data.Nat.ModEq
import MethodTrace.Proofs.Singletons

/-! # Names of unnamed types

Types that are made one after the other have different numbers, since the numbers repeat only after `2 ^ 61` types. The
number can be read back from a generated name, so that two types never share one. -/

namespace MethodTrace

/-! ### Numbers in base sixteen -/

namespace Text

theorem digit?_digitChar : ∀ d < 16, digit? 16 d.digitChar = some d := by decide

theorem hexValue?_cons (c : Char) (cs : List Char) :
    hexValue? (c :: cs) = (digit? 16 c).bind fun d => (cs.mapM (digit? 16)).map fun ds => ofDigits 16 (d :: ds) := by
  simp only [hexValue?, List.mapM_cons]
  cases digit? 16 c <;> cases cs.mapM (digit? 16) <;> rfl

theorem hexValue?_concat (cs : List Char) {d : Nat} (hd : d < 16) :
    hexValue? (cs ++ [d.digitChar]) = (hexValue? cs).map (16 * · + d) := by
  have hlast : [d.digitChar].mapM (digit? 16) = some [d] := by simp [digit?_digitChar d hd]
  simp only [hexValue?, List.mapM_append, hlast]
  cases cs.mapM (digit? 16) <;> simp [ofDigits, Nat.mul_comm]

theorem hexValue?_toDigits (n : Nat) : hexValue? (Nat.toDigits 16 n) = some n := by
  induction n using Nat.strongRecOn with
  | ind n ih =>
    rcases Nat.lt_or_ge n 16 with hn | hn
    · rw [Nat.toDigits_of_lt_base hn, ← List.nil_append [n.digitChar], hexValue?_concat [] hn]
      simp [hexValue?, ofDigits]
    · rw [Nat.toDigits_of_base_le (by decide) hn, hexValue?_concat _ (Nat.mod_lt n (by decide)),
        ih (n / 16) (Nat.div_lt_self (by omega) (by decide))]
      simp [Nat.div_add_mod]

theorem hexValue?_zeros (k : Nat) (cs : List Char) :
    hexValue? (List.replicate k '0' ++ cs) = hexValue? cs := by
  induction k with
  | zero => rfl
  | succ k ih =>
    rw [List.replicate_succ, List.cons_append, hexValue?_cons, ← ih, hexValue?]
    cases (List.replicate k '0' ++ cs).mapM (digit? 16) <;> rfl

/-- A number can be read back, whatever width it was brought to. -/
theorem hexValue?_padStart (width n : Nat) : hexValue? (padStart '0' width (hex n)).toList = some n := by
  simp [padStart, hex, hexValue?_zeros, hexValue?_toDigits]

end Text

theorem generatedName_inj {m m' : Metatype} {id id' : ObjectId} :
    generatedName m id = generatedName m' id' ↔ m = m' ∧ id = id' := by
  refine ⟨fun h => ?_, fun ⟨hm, hid⟩ => by rw [hm, hid]⟩
  have hchars := congrArg String.toList h
  simp only [generatedName, String.toList_append] at hchars
  -- The words for the two metatypes part at their first letter.
  obtain rfl : m = m' := by cases m <;> cases m' <;> first | rfl | simp [Metatype.name] at hchars
  have hnumber := congrArg Text.hexValue? (List.append_cancel_left (List.append_cancel_right hchars))
  rw [Text.hexValue?_padStart, Text.hexValue?_padStart] at hnumber
  exact ⟨rfl, UInt64.toNat_inj.mp (Option.some.inj hnumber)⟩

/-! ### Types made one after the other -/

/-- What a new type is to be. A singleton hangs on a value. -/
inductive TypePlan where
  | named (metatype : Metatype) (name : String)
  | anonymous (metatype : Metatype)
  | singleton (value : Receiver)

def TypePlan.make : TypePlan → ObjectId → TypeObject
  | named metatype name, id => .named id metatype name
  | anonymous metatype, id => .anonymous id metatype
  | singleton value, id => .singleton id value

/-- The type that a value has or is. -/
def Receiver.type? : Receiver → Option TypeObject
  | instanceOf type | typeItself type => some type
  | unknown => none

def TypePlan.owner? : TypePlan → Option TypeObject
  | singleton value => value.type?
  | _ => none

/-- The types that were made so far, first to last, and the numbers that are left. What a singleton hangs on was made
before it. -/
inductive Made : List TypeObject → ObjectIds → Prop
  | nil : Made [] {}
  | concat {types : List TypeObject} {ids : ObjectIds} (plan : TypePlan) : Made types ids →
      (∀ owner, plan.owner? = some owner → owner ∈ types) →
      Made (types ++ [(ids.create plan.make).2]) (ids.create plan.make).1

theorem TypePlan.id_make (plan : TypePlan) (id : ObjectId) : (plan.make id).id = id := by
  rcases plan with _ | _ | value
  · rfl
  · rfl
  · cases value <;> rfl

theorem TypePlan.owner?_make (plan : TypePlan) (id : ObjectId) : (plan.make id).owner? = plan.owner? := by
  rcases plan with _ | _ | value
  · rfl
  · rfl
  · cases value <;> rfl

/-- The numbers repeat only after `2 ^ 61` types, since the stride is odd but for a factor of eight. -/
theorem index_inj {first i j : Nat} (hi : i < 2 ^ 61) (hj : j < 2 ^ 61)
    (h : (first + 0x28 * i) % 2 ^ 64 = (first + 0x28 * j) % 2 ^ 64) : i = j := by
  have hsteps : 0x28 * i ≡ 0x28 * j [MOD 2 ^ 64] := Nat.ModEq.add_left_cancel' first h
  have hindex : i ≡ j [MOD 2 ^ 64 / Nat.gcd (2 ^ 64) 0x28] := Nat.ModEq.cancel_left_div_gcd (by decide) hsteps
  have hperiod : 2 ^ 64 / Nat.gcd (2 ^ 64) 0x28 = 2 ^ 61 := by decide
  rw [hperiod] at hindex
  exact hindex.eq_of_lt_of_lt hi hj

namespace Made
variable {types : List TypeObject} {ids : ObjectIds}

theorem next_eq (h : Made types ids) : ids.next.toNat = (0x7f100000 + 0x28 * types.length) % 2 ^ 64 := by
  induction h with
  | nil => decide
  | concat plan _ _ ih =>
    have hstride : (0x28 : UInt64).toNat = 0x28 := by decide
    simp only [ObjectIds.create, ObjectIds.stride, UInt64.toNat_add, ih, hstride, List.length_append,
      List.length_singleton]
    omega

theorem id_eq (h : Made types ids) {i : Nat} {type : TypeObject} (hi : types[i]? = some type) :
    type.id.toNat = (0x7f100000 + 0x28 * i) % 2 ^ 64 := by
  induction h with
  | nil => simp at hi
  | @concat types ids plan hmade _ ih =>
    rw [List.getElem?_append] at hi
    split at hi
    · exact ih hi
    · obtain ⟨hindex, rfl⟩ : i = types.length ∧ (ids.create plan.make).2 = type := by
        have hlt := (List.getElem?_eq_some_iff.mp hi).1
        simp only [List.length_singleton] at hlt
        obtain rfl : i = types.length := by omega
        simpa using hi
      rw [hindex, ObjectIds.create, plan.id_make, hmade.next_eq]

/-- Two types have one number only if they are the same one. -/
theorem index_eq (h : Made types ids) (hlen : types.length < 2 ^ 60) {i j : Nat} {a b : TypeObject}
    (hi : types[i]? = some a) (hj : types[j]? = some b) (same : a.id = b.id) : i = j := by
  have hia := (List.getElem?_eq_some_iff.mp hi).1
  have hjb := (List.getElem?_eq_some_iff.mp hj).1
  have ha := h.id_eq hi
  rw [same] at ha
  exact index_inj (by omega) (by omega) (ha.symm.trans (h.id_eq hj))

theorem owner_mem (h : Made types ids) {type owner : TypeObject} (hmem : type ∈ types)
    (howner : type.owner? = some owner) : owner ∈ types := by
  induction h with
  | nil => cases hmem
  | concat plan _ hplan ih =>
    rcases List.mem_append.mp hmem with hmem | hmem
    · exact List.mem_append_left _ (ih hmem)
    · rw [List.mem_singleton.mp hmem, ObjectIds.create, plan.owner?_make] at howner
      exact List.mem_append_left _ (hplan owner howner)

theorem entity_eq_iff (h : Made types ids) (hlen : types.length < 2 ^ 60) {i j : Nat} {a b : TypeObject}
    (hi : types[i]? = some a) (hj : types[j]? = some b) (ha : a.name? = none) (hb : b.name? = none) :
    a.entity = b.entity ↔ i = j := by
  constructor
  · intro same
    simp only [TypeObject.entity, ha, hb, Option.getD_none] at same
    exact h.index_eq hlen hi hj (generatedName_inj.mp same).2
  · rintro rfl
    rw [Option.some.inj (hi.symm.trans hj)]

end Made

/-- Types of which no two have one number, with what the singletons among them hang on. -/
structure Apart (types : List TypeObject) : Prop where
  owner_mem : ∀ type ∈ types, ∀ owner, type.owner? = some owner → owner ∈ types
  eq_of_id : ∀ a ∈ types, ∀ b ∈ types, a.id = b.id → a = b

namespace Apart
variable {types : List TypeObject} {ids : ObjectIds}

theorem of_made (h : Made types ids) (hlen : types.length < 2 ^ 60) : Apart types where
  owner_mem _ hmem _ howner := h.owner_mem hmem howner
  eq_of_id a ha b hb same := by
    obtain ⟨i, hi⟩ := List.mem_iff_getElem?.mp ha
    obtain ⟨j, hj⟩ := List.mem_iff_getElem?.mp hb
    rw [h.index_eq hlen hi hj same, hj] at hi
    exact (Option.some.inj hi).symm

theorem peel_mem (h : Apart types) {type : TypeObject} (hmem : type ∈ types) (n : Nat) : type.peel n ∈ types := by
  induction n generalizing type with
  | zero => cases type <;> exact hmem
  | succ n ih =>
    cases howner : type.owner? with
    | none => rwa [TypeObject.peel_of_innermost howner]
    | some owner =>
      rw [TypeObject.peel_of_owner howner]
      exact ih (h.owner_mem type hmem owner howner)

theorem behind_mem (h : Apart types) {type : TypeObject} (hmem : type ∈ types) : type.behindSingletons ∈ types :=
  h.peel_mem hmem _

end Apart
end MethodTrace
