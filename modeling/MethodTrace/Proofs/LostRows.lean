import MethodTrace.Proofs.Segments

/-! # Rows that are lost

A row counts as known from the moment it is to be written. When the write fails, the row is a duplicate for the rest of
the segment all the same, and is missing from the output. -/

namespace MethodTrace
namespace Session
variable {s : Session}

theorem size_le_doubled (chars : List Char) :
    chars.utf8Encode.size ≤ (Row.doubled chars).utf8Encode.size := by
  induction chars with
  | nil => exact Nat.le_refl _
  | cons c rest ih =>
    have hcons : ∀ (d : Char) (l : List Char), (d :: l).utf8Encode.size = [d].utf8Encode.size + l.utf8Encode.size :=
      fun d l => by rw [List.utf8Encode_cons, ByteArray.size_append]
    have hc := hcons c rest
    have hone := hcons c (Row.doubled rest)
    have htwo := hcons c (c :: Row.doubled rest)
    unfold Row.doubled
    split <;> omega

/-- A row is at least as long as the path in it. -/
theorem size_path_le (event : Event) (caller : Frame) :
    event.path.toUTF8.size ≤ (Row.ofEdge event caller).toUTF8.size := by
  have hfield := size_le_doubled event.path.toList
  rw [String.utf8Encode_toList] at hfield
  unfold Row.ofEdge Row.place Row.field
  simp only [String.toUTF8_eq_toByteArray, String.toByteArray_append, ByteArray.size_append,
    String.toByteArray_ofList]
  omega

/-- A call whose row is longer than the buffer. -/
def longCall : Notification where
  kind := .enter
  receiver := .unknown
  path := some (String.ofList (List.replicate 8192 'a'))

/-- Its return. -/
def longReturn : Notification where
  kind := .leave
  receiver := .unknown

/-- The call is made while the destination is full, and again when it has room. -/
def retried : List Action :=
  [.start, .setFaults { limit := some 0 }, .deliver longCall, .deliver longReturn, .setFaults {}, .deliver longCall]

theorem size_long (n : Nat) : (String.ofList (List.replicate n 'a')).toUTF8.size = n := by
  rw [String.toUTF8_eq_toByteArray, String.toByteArray_ofList]
  induction n with
  | zero => rfl
  | succ n ih =>
    rw [List.replicate_succ, List.utf8Encode_cons, ByteArray.size_append, ih, Nat.add_comm]
    rfl

theorem Tracks.deliver_full {settings : Settings} {calls : List OpenCall} (h : Tracks settings calls s)
    {n : Notification} {event : Event} (he : n.event? = some event)
    (outside : settings.ownEntity ≠ some event.method.entity) {row : String}
    (hrow : settings.row? calls event = some row) (hnew : ¬s.seen.Has row) {output : Output}
    (hheld : s.channel = .held output) (hempty : output.buffer = .empty)
    (hfull : output.destination.faults = { limit := some 0 }) (hlong : Output.bufferSize ≤ row.toUTF8.size) :
    (s.deliver n).2 = .writeFailed := by
  obtain ⟨-, -, hfate⟩ := h.deliver he outside
  have hfail : (s.channel.write row.toUTF8).2 = .error .full := by
    rw [hheld]
    exact Output.write_full hfull hempty hlong
  rw [hrow] at hfate
  generalize (s.deliver n).2 = outcome at hfate
  cases hfate with
  | duplicate _ hhas => exact absurd hhas hnew
  | recorded _ _ hw =>
    rw [hw] at hfail
    cases hfail
  | writeFailed => rfl

/-- The events of the run: the call has a row, and its return closes it. -/
theorem retried_events : ∃ call back, longCall.event? = some call ∧
    longReturn.event? = some back ∧
    Settings.row? { rootCalls := true } [] call = some (Row.ofEdge call (CallStack.callerFrame none)) ∧
    Settings.row? { rootCalls := true } (Settings.callsAfter { rootCalls := true } [] call) back = none ∧
    Settings.callsAfter { rootCalls := true } (Settings.callsAfter { rootCalls := true } [] call) back = [] ∧
    some "Calltrace::Session" ≠ some call.method.entity ∧ some "Calltrace::Session" ≠ some back.method.entity ∧
    call.path.toUTF8.size = 8192 :=
  ⟨_, _, rfl, rfl, rfl, rfl, rfl, by decide, by decide, size_long 8192⟩

/-- The row fails at first, and is due once more when the destination has room. -/
theorem row_lost : ∃ s, create { rootCalls := true } { destination := { faults := {} }, label := "" }
      { process := 1 } = .ok s ∧
    ∃ past x row, past ++ [x] = s.stepsOfAll retried ∧ x.due? = some row ∧ dueRows (segment past) = [row] ∧
      failedRows (segment past) = [row] := by
  obtain ⟨s, opened⟩ := create_in_memory { rootCalls := true } (by decide)
  obtain ⟨call, back, hcall, hback, hrow, hnone, hcalls, outside, outside', hpath⟩ := retried_events
  generalize hrow' : Row.ofEdge call (CallStack.callerFrame none) = row at hrow
  have hlong : Output.bufferSize ≤ row.toUTF8.size := by
    rw [← hrow', Output.bufferSize, ← hpath]
    exact size_path_le call _
  have fresh := create_fresh opened
  obtain ⟨output, hheld, hempty⟩ := create_drained opened
  have hsame := start_sameTrace s
  have h₁ := fresh.start.1
  generalize hs₁ : s.start.1 = s₁ at hsame h₁
  have h₂ := h₁.setFaults { limit := some 0 }
  have hheld₂ : (s₁.perform (.setFaults { limit := some 0 })).1.channel =
      .held { output with destination := { output.destination with faults := { limit := some 0 } } } := by
    show Channel.setFaults _ s₁.channel = _
    rw [hsame.channel, hheld]
    rfl
  have hnew : ¬(s₁.perform (.setFaults { limit := some 0 })).1.seen.Has row := by
    show ¬s₁.seen.Has row
    rw [hsame.seen, fresh.seen]
    exact not_has_empty row
  generalize hs₂ : (s₁.perform (.setFaults { limit := some 0 })).1 = s₂ at h₂ hheld₂ hnew
  have hfailed := h₂.deliver_full hcall outside hrow hnew hheld₂ hempty rfl hlong
  obtain ⟨hdue₂, h₃, -⟩ := h₂.deliver hcall outside
  generalize hs₃ : (s₂.deliver longCall).1 = s₃ at h₃
  obtain ⟨hdue₃, h₄, -⟩ := h₃.deliver hback outside'
  rw [hcalls] at h₄
  generalize hs₄ : (s₃.deliver longReturn).1 = s₄ at h₄
  have h₅ := h₄.setFaults {}
  generalize hs₅ : (s₄.perform (.setFaults {})).1 = s₅ at h₅
  obtain ⟨hdue₅, -⟩ := h₅.deliver hcall outside
  have hd₂ : (s₂.step (.deliver longCall)).due? = some row := hdue₂.trans hrow
  have hd₃ : (s₃.step (.deliver longReturn)).due? = none := hdue₃.trans hnone
  have hf₂ : (s₂.step (.deliver longCall)).rowIf (· == .writeFailed) = some row :=
    rowIf_eq_some.mpr ⟨_, congrArg some hfailed, rfl, hd₂⟩
  have hf₃ : (s₃.step (.deliver longReturn)).rowIf (· == .writeFailed) = none := by
    unfold Step.rowIf
    rw [hd₃, ite_self]
  obtain ⟨past, hpast⟩ : ∃ past, past = [s.step .start, s₁.step (.setFaults { limit := some 0 }),
      s₂.step (.deliver longCall), s₃.step (.deliver longReturn), s₄.step (.setFaults {})] := ⟨_, rfl⟩
  have hsegment : segment past = past := segment_eq_self (by simp [hpast, Step.resets, step])
  refine ⟨s, opened, past, s₅.step (.deliver longCall), row, ?_, hdue₅.trans hrow, ?_, ?_⟩
  · subst hs₁ hs₂ hs₃ hs₄ hs₅ hpast
    rfl
  · rw [hsegment, hpast, dueRows, List.filterMap_cons_none rfl, List.filterMap_cons_none rfl,
      List.filterMap_cons_some hd₂, List.filterMap_cons_none hd₃, List.filterMap_cons_none rfl, List.filterMap_nil]
  · rw [hsegment, hpast, failedRows, List.filterMap_cons_none rfl, List.filterMap_cons_none rfl,
      List.filterMap_cons_some hf₂, List.filterMap_cons_none hf₃, List.filterMap_cons_none rfl, List.filterMap_nil]

/-- A row is answered as a duplicate if it was written before in the segment, or could not be written. It is never
both, so that the row of a duplicate is in the output unless an earlier write of it failed. -/
theorem duplicate_iff_recorded_or_failed {settings : Settings} {faults : Faults} {label : String} {host : Host}
    (opened : create settings { destination := { faults }, label } host = .ok s) (edges : settings.flatten = true)
    (actions : List Action) {past : List Step} {x : Step} (hp : past ++ [x] <+: s.stepsOfAll actions) {row : String}
    (due : x.due? = some row) (apart : ToldApart (row :: dueRows (segment past))) :
    (x.outcome? = some .duplicate ↔ row ∈ recordedRows (segment past) ∨ row ∈ failedRows (segment past)) ∧
      ¬(row ∈ recordedRows (segment past) ∧ row ∈ failedRows (segment past)) := by
  have reaches := reaches_upTo hp
  obtain ⟨hbefore, -⟩ := reaches.last
  have recalls := recalls_of_opened opened edges hbefore
  have remembers := remembers_of_opened opened edges reaches x (by simp)
  exact ⟨recalls.duplicate_iff remembers due apart, recalls.not_recorded_and_failed row⟩

theorem duplicate_of_lost_row_iff : ∃ s, create { rootCalls := true } { destination := { faults := {} }, label := "" }
      { process := 1 } = .ok s ∧
    ∃ past x row, past ++ [x] = s.stepsOfAll retried ∧ row ∈ failedRows (segment past) ∧
      (x.outcome? = some .duplicate ↔ row ∈ recordedRows (segment past) ∨ row ∈ failedRows (segment past)) ∧
        ¬(row ∈ recordedRows (segment past) ∧ row ∈ failedRows (segment past)) := by
  obtain ⟨s, opened, past, x, row, hsteps, due, hdue, hfailed⟩ := row_lost
  have apart : ToldApart (row :: dueRows (segment past)) := by simp [hdue, ToldApart]
  exact ⟨s, opened, past, x, row, hsteps, by simp [hfailed],
    duplicate_iff_recorded_or_failed opened rfl retried (hsteps ▸ List.prefix_refl _) due apart⟩

/-- The row of a duplicate need not be in the output. -/
theorem duplicate_of_lost_row : ∃ s, create { rootCalls := true } { destination := { faults := {} }, label := "" }
      { process := 1 } = .ok s ∧
    ∃ past x row, past ++ [x] <+: s.stepsOfAll retried ∧ x.due? = some row ∧
      ToldApart (row :: dueRows (segment past)) ∧ x.outcome? = some .duplicate ∧
      row ∉ recordedRows (segment past) := by
  obtain ⟨s, opened, past, x, row, hsteps, due, hdue, hfailed⟩ := row_lost
  have hp : past ++ [x] <+: s.stepsOfAll retried := hsteps ▸ List.prefix_refl _
  have reaches := reaches_upTo hp
  obtain ⟨hbefore, -⟩ := reaches.last
  have recalls := recalls_of_opened opened rfl hbefore
  have remembers := remembers_of_opened opened rfl reaches x (by simp)
  have apart : ToldApart (row :: dueRows (segment past)) := by simp [hdue, ToldApart]
  have hlost : row ∈ failedRows (segment past) := by simp [hfailed]
  exact ⟨s, opened, past, x, row, hp, due, apart,
    (recalls.duplicate_iff remembers due apart).mpr (.inr hlost),
    fun hrecorded => recalls.not_recorded_and_failed row ⟨hrecorded, hlost⟩⟩

end Session
end MethodTrace
