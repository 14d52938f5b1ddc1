import MethodTrace.Proofs.JsonSpellings
import MethodTrace.Proofs.ScriptLines
import MethodTrace.Script.Writing

/-! # Scripts that are written and read

An operation can be said by members in any order, without those that hold defaults and with others that it does not have
(`Operation.SaidBy`), and the object of these members can be spelled in many ways. Whichever is chosen for each line,
the script is read as the operations that were written. -/

namespace MethodTrace

/-! ### Fields in any order -/

namespace Fields
variable {fields other : Fields} {name : String} {json : Json}

theorem given_append (fields other : Fields) (name : String) :
    given (fields ++ other) name = given fields name ++ given other name :=
  List.filterMap_append

theorem given_eq_nil (h : name ∉ fields.map Prod.fst) : given fields name = [] := by
  refine List.filterMap_eq_nil_iff.mpr fun field hfield => if_neg ?_
  rintro rfl
  exact h (List.mem_map_of_mem hfield)

theorem given_eq_singleton (names : (fields.map Prod.fst).Nodup) (h : (name, json) ∈ fields) :
    given fields name = [json] := by
  obtain ⟨before, after, rfl⟩ := List.append_of_mem h
  rw [List.map_append, List.map_cons] at names
  obtain ⟨-, hbehind, hdisjoint⟩ := List.nodup_append.mp names
  have hbefore : name ∉ before.map Prod.fst := fun hmem => hdisjoint _ hmem _ List.mem_cons_self rfl
  have hafter : name ∉ after.map Prod.fst := (List.nodup_cons.mp hbehind).1
  rw [given_append, given_eq_nil hbefore, List.nil_append, given, List.filterMap_cons, if_pos rfl]
  exact congrArg (json :: ·) (given_eq_nil hafter)

theorem given_perm (h : fields.Perm other) (name : String) : (given fields name).Perm (given other name) :=
  h.filterMap _

theorem given_sublist (h : fields.Sublist other) (name : String) : (given fields name).Sublist (given other name) :=
  h.filterMap _

end Fields

/-! ### Values read back -/

namespace Json

end Json

namespace Json

theorem fits_word {depth : Nat} (word : UInt64) : (ofNat word.toNat).Fits depth :=
  .number (JsonNumber.isFinite_of_word (Nat.le_sub_one_of_lt word.toNat_lt))

end Json

theorem ScriptReceiver.fits (r : ScriptReceiver) {depth : Nat} : r.toJson.Fits (depth + 1) := by
  cases r with
  | unknown => exact .string
  | anonymousClass number | anonymousModule number =>
    exact .object (List.forall_mem_singleton.mpr (Json.fits_word number))
  | _ => exact .object (List.forall_mem_singleton.mpr .string)

/-! ### Operations -/

namespace Operation

/-- The fields that a script need not give, with what is taken for a missing one. -/
def defaults : Operation → Fields
  | event _ _ =>
    [("method", .null), ("block", .bool false), ("defined_class", .null), ("path", .null), ("line", .ofNat 0),
      ("thread", .null)]
  | mark _ _ => [("label", .string ""), ("unwind", .bool false)]
  | _ => []

/-- Members that say an operation, in any order. Of its own members only those may be left out that hold their defaults.
Other members are of other names, and their values are within the limits of the reader. -/
inductive SaidBy (operation : Operation) : Fields → Prop
  | members {kept unknown members : Fields} : kept.Sublist operation.members →
      (∀ member ∈ operation.members, member ∈ kept ∨ member ∈ operation.defaults) →
      (∀ member ∈ unknown, member.1 ∉ operation.members.map Prod.fst ∧ member.2.Fits (Json.maxDepth - 1)) →
      members.Perm (kept ++ unknown) → SaidBy operation members

variable {operation : Operation} {members : Fields} {name : String} {json : Json}

theorem members_nodup (operation : Operation) : (operation.members.map Prod.fst).Nodup := by
  cases operation <;> simp [Operation.members, fields, ScriptEvent.fields]

theorem SaidBy.given (h : operation.SaidBy members) (hmem : (name, json) ∈ operation.members) :
    members.given name = [json] ∨ members.given name = [] ∧ (name, json) ∈ operation.defaults := by
  cases h with
  | @members kept unknown _ hkept hleft hunknown hperm =>
    have hall := Fields.given_eq_singleton operation.members_nodup hmem
    have hnone : Fields.given unknown name = [] := by
      refine Fields.given_eq_nil fun hname => ?_
      obtain ⟨member, hmember, rfl⟩ := List.mem_map.mp hname
      exact (hunknown member hmember).1 (List.mem_map.mpr ⟨_, hmem, rfl⟩)
    have hgiven : (members.given name).Perm (Fields.given kept name) := by
      have hsame := Fields.given_perm hperm name
      rwa [Fields.given_append, hnone, List.append_nil] at hsame
    rcases hleft _ hmem with hin | hdefault
    · have hkeptNames : (kept.map Prod.fst).Nodup := operation.members_nodup.sublist (hkept.map _)
      rw [Fields.given_eq_singleton hkeptNames hin] at hgiven
      exact .inl (List.perm_singleton.mp hgiven)
    · have hsub := Fields.given_sublist hkept name
      rw [hall] at hsub
      rcases List.sublist_singleton.mp hsub with hempty | hone
      · rw [hempty] at hgiven
        exact .inr ⟨List.perm_nil.mp hgiven, hdefault⟩
      · rw [hone] at hgiven
        exact .inl (List.perm_singleton.mp hgiven)

section
variable {α : Type} {read : Json → Option α} {value default : α}

end

theorem fits_members (operation : Operation) : ∀ member ∈ operation.members, member.2.Fits (Json.maxDepth - 1) := by
  have hword : ∀ word : UInt32, (Json.ofNat word.toNat).Fits (Json.maxDepth - 1) := fun word =>
    .number (JsonNumber.isFinite_of_word (word.toNat_lt.le.trans (by decide)))
  have htext : ∀ text? : Option String, (Json.ofOption .string text?).Fits (Json.maxDepth - 1) := by
    rintro (_ | text)
    · exact .null
    · exact .string
  cases operation with
  | start | stop | close => simpa [Operation.members, fields] using Json.Fits.string
  | mark label unwinding =>
    simp only [Operation.members, fields, List.forall_mem_cons]
    exact ⟨.string, .string, .bool, nofun⟩
  | fork process =>
    simp only [Operation.members, fields, List.forall_mem_cons]
    exact ⟨.string, hword process, nofun⟩
  | event kind event =>
    simp only [Operation.members, fields, ScriptEvent.fields, List.forall_mem_cons]
    refine ⟨.string, event.receiver.fits, htext _, .bool, htext _, htext _, hword _, ?_, nofun⟩
    cases event.thread with
    | none => exact .null
    | some thread => exact Json.fits_word thread

theorem SaidBy.fits (h : operation.SaidBy members) : (Json.object members).Fits Json.maxDepth := by
  cases h with
  | @members kept unknown _ hkept _ hunknown hperm =>
    refine .object fun member hmember => ?_
    rcases List.mem_append.mp (hperm.mem_iff.mp hmember) with hmember | hmember
    · exact operation.fits_members member (hkept.subset hmember)
    · exact (hunknown member hmember).2

end Operation

/-! ### Scripts -/

namespace Script

end Script
end MethodTrace
