import MethodTrace.Proofs.ScriptLines
import MethodTrace.Record.Row
import MethodTrace.Record.Seen

/-! # Runs of bytes that differ in one byte

Both halves of a fingerprint's step can be undone: the byte is mixed in by an exclusive or, and the odd factor has an
inverse. So states that differ stay different under the same bytes, and one byte that differs leaves states that do. -/

namespace MethodTrace
namespace Fingerprint

/-- What undoes the factor of a step. -/
def inverse : UInt64 := 0xce965057aff6957b

theorem factor_mul_inverse : factor * inverse = 1 := by decide

theorem mul_factor_inj {a b : UInt64} : a * factor = b * factor ↔ a = b := by
  refine ⟨fun h => ?_, fun h => by rw [h]⟩
  have hundone := congrArg (· * inverse) h
  simpa only [UInt64.mul_assoc, factor_mul_inverse, UInt64.mul_one] using hundone

theorem absorb_state_inj {state other : UInt64} {byte : UInt8} :
    absorb state byte = absorb other byte ↔ state = other := by
  rw [absorb, absorb, mul_factor_inj, UInt64.xor_left_inj]

theorem absorb_byte_inj {state : UInt64} {a b : UInt8} : absorb state a = absorb state b ↔ a = b := by
  rw [absorb, absorb, mul_factor_inj, UInt64.xor_right_inj, UInt8.toUInt64_inj]

theorem absorbAll_inj {state other : UInt64} (bytes : List UInt8) :
    absorbAll state bytes = absorbAll other bytes ↔ state = other := by
  induction bytes generalizing state other with
  | nil => rfl
  | cons byte bytes ih =>
    rw [absorbAll, absorbAll, List.foldl_cons, List.foldl_cons]
    exact ih.trans absorb_state_inj

theorem absorbAll_append (state : UInt64) (bytes more : List UInt8) :
    absorbAll state (bytes ++ more) = absorbAll (absorbAll state bytes) more :=
  List.foldl_append

/-- The byte decides, whatever stands before it and behind it. -/
theorem absorbAll_byte_inj {state : UInt64} {before after : List UInt8} {a b : UInt8} :
    absorbAll state (before ++ [a] ++ after) = absorbAll state (before ++ [b] ++ after) ↔ a = b := by
  rw [absorbAll_append, absorbAll_append _ _ after, absorbAll_inj, absorbAll_append, absorbAll_append]
  exact absorb_byte_inj

end Fingerprint

/-- Two runs of bytes that differ in exactly one byte. -/
def OneByteApart (first second : ByteArray) : Prop :=
  ∃ before after a b, a ≠ b ∧ first.data.toList = before ++ [a] ++ after ∧ second.data.toList = before ++ [b] ++ after

namespace OneByteApart

theorem fingerprint_ne {first second : ByteArray} (h : OneByteApart first second) :
    fingerprint first ≠ fingerprint second := by
  obtain ⟨before, after, a, b, hne, hfirst, hsecond⟩ := h
  rw [fingerprint, fingerprint, hfirst, hsecond]
  exact mt Fingerprint.absorbAll_byte_inj.mp hne

theorem encoded_letter {before after : String} {c : Char} (hc : c.toNat < 0x80) :
    (before ++ String.singleton c ++ after).toUTF8.data.toList =
      Script.encoded before ++ [UInt8.ofNat c.toNat] ++ Script.encoded after := by
  have hletter : Script.encoded (String.singleton c) = [UInt8.ofNat c.toNat] := by
    have hone : String.utf8EncodeChar c = [UInt8.ofNat c.toNat] := if_pos (Nat.le_of_lt_succ hc)
    rw [Script.encoded_eq, String.toList_singleton, List.flatMap_singleton, hone]
  rw [← hletter, ← Script.encoded_append, ← Script.encoded_append]
  rfl

/-- Texts that differ in one digit or one letter without an accent. -/
theorem of_letter {before after : String} {c d : Char} (hc : c.toNat < 0x80) (hd : d.toNat < 0x80) (hne : c ≠ d) :
    OneByteApart (before ++ String.singleton c ++ after).toUTF8 (before ++ String.singleton d ++ after).toUTF8 := by
  refine ⟨_, _, _, _, fun same => hne ?_, encoded_letter hc, encoded_letter hd⟩
  have hnat := congrArg UInt8.toNat same
  rw [UInt8.toNat_ofNat', UInt8.toNat_ofNat', Nat.mod_eq_of_lt (by omega), Nat.mod_eq_of_lt (by omega)] at hnat
  exact Char.toNat_inj.mp hnat

theorem levels (entity name : String) :
    OneByteApart (Method.bytes ⟨entity, name, .onInstance⟩) (Method.bytes ⟨entity, name, .onType⟩) := by
  have hbytes : ∀ level : Level, (Method.bytes ⟨entity, name, level⟩).data.toList =
      (entity.toUTF8 ++ ⟨#[0xff]⟩ ++ name.toUTF8).data.toList ++ [level.byte] ++ [] := fun level =>
    ByteArray.toList_data_append.trans (List.append_nil _).symm
  exact ⟨_, _, _, _, by decide, hbytes .onInstance, hbytes .onType⟩

end OneByteApart

namespace SeenRows

/-- Meet rows one after the other. -/
def meetAll (seen : SeenRows) (rows : List ByteArray) : SeenRows :=
  rows.foldl (fun seen row => (seen.meet row).1) seen

theorem meet_known {seen : SeenRows} {row : ByteArray} :
    (seen.meet row).2 = false ↔ fingerprint row ∈ seen.fingerprints := by
  simp [meet, meetFingerprint]

theorem meet_meet_known {seen : SeenRows} {row other : ByteArray} :
    ((seen.meet other).1.meet row).2 = false ↔ fingerprint other = fingerprint row ∨ (seen.meet row).2 = false := by
  rw [meet_known, meet_known]
  exact Std.HashSet.mem_insert.trans (or_congr_left beq_iff_eq)

theorem meetAll_known {seen : SeenRows} {rows : List ByteArray} {row : ByteArray} :
    ((seen.meetAll rows).meet row).2 = false ↔
      (seen.meet row).2 = false ∨ ∃ other ∈ rows, fingerprint other = fingerprint row := by
  induction rows generalizing seen with
  | nil => simp [meetAll]
  | cons other rows ih =>
    rw [meetAll, List.foldl_cons]
    refine ih.trans ?_
    rw [meet_meet_known, List.exists_mem_cons_iff]
    exact or_assoc.trans or_left_comm

end SeenRows

/-- One byte decides between two fingerprints of runs that are otherwise the same. So of all rows that were met, one that
differs from a row in exactly one byte never makes that row a known one: only another row with the same fingerprint does.
Such are the rows of two edges that differ in one character that takes up one byte, as a digit of the line or a letter
of a name does. And the token of a method on an instance is never that of the method with the same names on a type. -/
theorem told_apart_by_one_byte :
    (∀ (before after : List UInt8) (a b : UInt8),
        fingerprint ⟨(before ++ [a] ++ after).toArray⟩ = fingerprint ⟨(before ++ [b] ++ after).toArray⟩ ↔ a = b) ∧
      (∀ (seen : SeenRows) (rows : List ByteArray) (row : ByteArray),
        ((seen.meetAll rows).meet row).2 = false ↔
          (seen.meet row).2 = false ∨
            ∃ other ∈ rows, ¬OneByteApart other row ∧ fingerprint other = fingerprint row) ∧
      (∀ (callee callee' : Event) (caller caller' : Frame) (before after : String) (c d : Char),
        c.toNat < 0x80 → d.toNat < 0x80 → c ≠ d →
          Row.ofEdge callee caller = before ++ String.singleton c ++ after →
          Row.ofEdge callee' caller' = before ++ String.singleton d ++ after →
            OneByteApart (Row.ofEdge callee caller).toUTF8 (Row.ofEdge callee' caller').toUTF8) ∧
      ∀ entity name, Method.token ⟨entity, name, .onInstance⟩ ≠ Method.token ⟨entity, name, .onType⟩ := by
  refine ⟨fun before after a b => Fingerprint.absorbAll_byte_inj, fun seen rows row => ?_, ?_, fun entity name => ?_⟩
  · have hsame : ∀ other : ByteArray,
        fingerprint other = fingerprint row ↔ ¬OneByteApart other row ∧ fingerprint other = fingerprint row :=
      fun other => ⟨fun same => ⟨fun apart => apart.fingerprint_ne same, same⟩, And.right⟩
    rw [SeenRows.meetAll_known]
    simp only [← hsame]
  · intro callee callee' caller caller' before after c d hc hd hne hrow hrow'
    rw [hrow, hrow']
    exact .of_letter hc hd hne
  · exact (OneByteApart.levels entity name).fingerprint_ne

/-- The same call at two lines that differ in one digit. When the row of the first was met, that of the second is new. -/
theorem told_apart_by_digit :
    let callee (line : UInt32) : Event :=
      { kind := .call, method := ⟨"Inner", "step", .onInstance⟩, path := "outer.rb", line }
    let row (line : UInt32) : ByteArray := (Row.ofEdge (callee line) .root).toUTF8
    OneByteApart (row 12) (row 13) ∧ ((({} : SeenRows).meetAll [row 12]).meet (row 13)).2 = true := by
  intro callee row
  obtain ⟨-, known, edges, -⟩ := told_apart_by_one_byte
  have apart : OneByteApart (row 12) (row 13) :=
    edges (callee 12) (callee 13) .root .root "\"Inner\",\"step\",instance,\"outer.rb\",1"
      ",\"<ROOT>\",\"<ROOT>\",<UNKNOWN>\n" '2' '3' (by decide) (by decide) (by decide)
      (by decide +kernel) (by decide +kernel)
  clear_value row
  refine ⟨apart, Bool.of_not_eq_false fun hknown => ?_⟩
  rcases (known {} [row 12] (row 13)).mp hknown with hnone | ⟨other, hother, hnot, -⟩
  · simp [SeenRows.meet_known] at hnone
  · rw [List.mem_singleton.mp hother] at hnot
    exact hnot apart

end MethodTrace
