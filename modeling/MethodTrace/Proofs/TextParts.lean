import Mathlib.Data.List.DropRight
import MethodTrace.Text.Blank
import MethodTrace.Text.Parts

/-! # Parts of texts

What cutting, trimming and searching find is told by where it stands in the text: a piece between separators (`Piece`),
a text between blanks (`Trims`), and a part without a gap. -/

namespace MethodTrace.Text

/-! ### Trimming -/

/-- All that stands around a part of a text is blank, and the part itself does not begin or end with a blank. -/
structure Trims (cs part : List Char) : Prop where
  around : ∃ before after, cs = before ++ part ++ after ∧ (∀ c ∈ before, isBlank c = true) ∧ ∀ c ∈ after, isBlank c = true
  first : ∀ c, part.head? = some c → isBlank c = false
  last : ∀ c, part.getLast? = some c → isBlank c = false

theorem trimStart_append {before : List Char} (h : ∀ c ∈ before, isBlank c = true) (cs : List Char) :
    trimStart (before ++ cs) = trimStart cs := by
  induction before with
  | nil => rfl
  | cons c before ih =>
    obtain ⟨hc, hbefore⟩ := List.forall_mem_cons.mp h
    rw [List.cons_append, trimStart, List.dropWhile_cons_of_pos hc]
    exact ih hbefore

theorem trimEnd_append {after : List Char} (h : ∀ c ∈ after, isBlank c = true) (cs : List Char) :
    trimEnd (cs ++ after) = trimEnd cs := by
  have hstart := trimStart_append (fun c hc => h c (List.mem_reverse.mp hc)) cs.reverse
  rw [trimEnd, List.reverse_append]
  exact congrArg List.reverse hstart

theorem trimStart_eq_self {cs : List Char} (h : ∀ c, cs.head? = some c → isBlank c = false) : trimStart cs = cs := by
  cases cs with
  | nil => rfl
  | cons c cs => exact List.dropWhile_cons_of_neg (by simp [h c rfl])

theorem trimEnd_eq_self {cs : List Char} (h : ∀ c, cs.getLast? = some c → isBlank c = false) : trimEnd cs = cs := by
  have hstart : trimStart cs.reverse = cs.reverse := trimStart_eq_self fun c hc => h c (by simpa using hc)
  rw [trimEnd]
  exact (congrArg List.reverse hstart).trans cs.reverse_reverse

theorem head?_trimStart {cs : List Char} {c : Char} (h : (trimStart cs).head? = some c) : isBlank c = false := by
  have hnot := List.head?_dropWhile_not isBlank cs
  unfold trimStart at h
  rw [h] at hnot
  exact hnot

theorem getLast?_trimEnd {cs : List Char} {c : Char} (h : (trimEnd cs).getLast? = some c) : isBlank c = false := by
  rw [trimEnd, List.getLast?_reverse] at h
  exact head?_trimStart h

theorem trims_trimChars (cs : List Char) : Trims cs (trimChars cs) := by
  have hstart : cs.takeWhile isBlank ++ trimStart cs = cs := List.takeWhile_append_dropWhile
  have hend : trimChars cs ++ (trimStart cs).rtakeWhile isBlank = trimStart cs := List.rdropWhile_append_rtakeWhile
  refine ⟨⟨cs.takeWhile isBlank, (trimStart cs).rtakeWhile isBlank, ?_, fun c hc => List.mem_takeWhile_imp hc,
    fun c hc => List.mem_rtakeWhile_imp hc⟩, fun c hc => ?_, fun c hc => getLast?_trimEnd hc⟩
  · rw [List.append_assoc, hend, hstart]
  · refine @head?_trimStart cs c ?_
    rw [← hend, List.head?_append, hc, Option.some_or]

/-- What is left of a text is all that can be, so that it is found in one way only. -/
theorem trims_iff {cs part : List Char} : Trims cs part ↔ trimChars cs = part := by
  constructor
  · rintro ⟨⟨before, after, rfl, hbefore, hafter⟩, hfirst, hlast⟩
    rw [trimChars, List.append_assoc, trimStart_append hbefore]
    cases part with
    | nil =>
      have hnone := trimStart_append hafter []
      rw [List.append_nil] at hnone
      rw [List.nil_append, hnone]
      rfl
    | cons c part =>
      rw [trimStart_eq_self (by simpa using hfirst), trimEnd_append hafter, trimEnd_eq_self hlast]
  · rintro rfl
    exact trims_trimChars cs

/-! ### Cutting -/

/-- Induction along the pieces of a list, by its first separator if it has one. -/
@[elab_as_elim]
theorem piece_induction {α : Type} [DecidableEq α] (separator : α) {motive : List α → Prop}
    (last : ∀ piece, separator ∉ piece → motive piece)
    (cut : ∀ piece rest, separator ∉ piece → motive rest → motive (piece ++ separator :: rest)) (cs : List α) :
    motive cs := by
  induction hlen : cs.length using Nat.strongRecOn generalizing cs with
  | ind n ih =>
    by_cases hmem : separator ∈ cs
    · obtain ⟨piece, rest, rfl, hpiece⟩ := List.eq_append_cons_of_mem hmem
      have hlt : rest.length < n := by
        simp only [List.length_append, List.length_cons] at hlen
        omega
      exact cut piece rest hpiece (ih rest.length hlt rest rfl)
    · exact last cs hmem

/-- A piece between two separators, or between one and an end of the text. -/
def Piece (separator : Char) (cs piece : List Char) : Prop :=
  ∃ before after, cs = before ++ piece ++ after ∧ separator ∉ piece ∧
    (before = [] ∨ before.getLast? = some separator) ∧ (after = [] ∨ after.head? = some separator)

theorem cutAt_of_not_mem {separator : Char} {cs : List Char} (h : separator ∉ cs) : cutAt separator cs = [cs] := by
  induction cs with
  | nil => rfl
  | cons c cs ih =>
    obtain ⟨hc, hcs⟩ := not_or.mp (mt List.mem_cons.mpr h)
    rw [cutAt, if_neg (Ne.symm hc), ih hcs]

theorem cutAt_ne_nil (separator : Char) (cs : List Char) : cutAt separator cs ≠ [] := by
  cases cs with
  | nil => simp [cutAt]
  | cons c cs =>
    unfold cutAt
    split
    · simp
    · split <;> simp

theorem cutAt_append (separator : Char) (cs rest : List Char) :
    cutAt separator (cs ++ separator :: rest) = cutAt separator cs ++ cutAt separator rest := by
  induction cs with
  | nil => simp [cutAt]
  | cons c cs ih =>
    rw [List.cons_append, cutAt, cutAt, ih]
    split
    · rfl
    · rcases hcut : cutAt separator cs with _ | ⟨piece, pieces⟩
      · exact absurd hcut (cutAt_ne_nil separator cs)
      · rfl

theorem mem_cutAt {separator : Char} {cs piece : List Char} : piece ∈ cutAt separator cs ↔ Piece separator cs piece := by
  constructor
  · intro h
    induction cs using piece_induction separator with
    | last cs hnot =>
      rw [cutAt_of_not_mem hnot, List.mem_singleton] at h
      exact ⟨[], [], by simp [h], h ▸ hnot, .inl rfl, .inl rfl⟩
    | cut start rest hstart ih =>
      rw [cutAt_append, cutAt_of_not_mem hstart, List.singleton_append, List.mem_cons] at h
      rcases h with rfl | h
      · exact ⟨[], separator :: rest, by simp, hstart, .inl rfl, .inr rfl⟩
      · obtain ⟨before, after, rfl, hpiece, hbefore, hafter⟩ := ih h
        refine ⟨start ++ separator :: before, after, by simp, hpiece, .inr ?_, hafter⟩
        rcases hbefore with rfl | hbefore
        · simp
        · simp [List.getLast?_cons, hbefore]
  · rintro ⟨before, after, rfl, hpiece, hbefore, hafter⟩
    have hstart : piece ∈ cutAt separator (piece ++ after) := by
      rcases hafter with rfl | hafter
      · simp [cutAt_of_not_mem hpiece]
      · obtain ⟨rest, rfl⟩ := List.head?_eq_some_iff.mp hafter
        simp [cutAt_append, cutAt_of_not_mem hpiece]
    rw [List.append_assoc]
    rcases hbefore with rfl | hbefore
    · exact hstart
    · obtain ⟨start, rfl⟩ := List.getLast?_eq_some_iff.mp hbefore
      rw [List.append_assoc, List.singleton_append, cutAt_append]
      exact List.mem_append_right _ hstart

/-- Pieces without a separator are found again between separators. -/
theorem cutAt_intercalate {separator : Char} {pieces : List (List Char)} (hne : pieces ≠ [])
    (h : ∀ piece ∈ pieces, separator ∉ piece) : cutAt separator ([separator].intercalate pieces) = pieces := by
  induction pieces with
  | nil => exact absurd rfl hne
  | cons piece pieces ih =>
    obtain ⟨hpiece, hpieces⟩ := List.forall_mem_cons.mp h
    cases pieces with
    | nil => rw [List.intercalate_singleton, cutAt_of_not_mem hpiece]
    | cons next pieces =>
      rw [List.intercalate_cons_cons, List.append_assoc, List.singleton_append, cutAt_append, cutAt_of_not_mem hpiece,
        ih (by simp) hpieces, List.singleton_append]

/-! ### Searching -/

theorem occursIn_iff {part cs : List Char} : occursIn part cs = true ↔ part <:+: cs := by
  induction cs with
  | nil => simp [occursIn]
  | cons c cs ih => rw [occursIn, Bool.or_eq_true, List.isPrefixOf_iff_prefix, ih, List.infix_cons_iff]

theorem behind?_eq_some {start cs rest : List Char} : behind? start cs = some rest ↔ cs = start ++ rest := by
  unfold behind?
  split
  next h =>
    obtain ⟨more, rfl⟩ := List.isPrefixOf_iff_prefix.mp h
    simp
  next h =>
    refine ⟨nofun, ?_⟩
    rintro rfl
    exact absurd (List.isPrefixOf_iff_prefix.mpr (List.prefix_append _ _)) h

end MethodTrace.Text
