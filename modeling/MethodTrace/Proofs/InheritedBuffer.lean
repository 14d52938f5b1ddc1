import MethodTrace.Proofs.ForkedChild

/-! # What a flush does with an inherited buffer

A flush puts out the front of the buffer, as much as the destination takes, and keeps the rest. It is the one way to the
output that does not ask whose process it is in: what is buffered when a process forks can be put out by the owner and
by every child that flushes. -/

namespace MethodTrace

theorem mapError_eq_ok {ε ε' α : Type} {x : Except ε α} {f : ε → ε'} {a : α} : x.mapError f = .ok a ↔ x = .ok a := by
  cases x <;> simp [Except.mapError]

theorem mapError_eq_error {ε ε' α : Type} {x : Except ε α} {f : ε → ε'} {e : ε'} :
    x.mapError f = .error e ↔ ∃ cause, x = .error cause ∧ f cause = e := by
  cases x <;> simp [Except.mapError]

theorem Destination.received_writeAll_iff (d : Destination) (bytes : ByteArray) (stuck : WriteFault) :
    (d.writeAll bytes stuck).1.received = d.received ↔ bytes.size = 0 ∨ d.room bytes.size = 0 := by
  fun_induction writeAll d bytes stuck with
  | case1 d bytes hsize => simp [hsize]
  | case2 d bytes _ _ ih => exact ih
  | case3 d bytes _ _ hroom => simp [hroom, refused]
  | case4 d bytes hsize _ hroom _ =>
    -- The first piece that was taken stays, whatever follows it.
    obtain ⟨k, -, hreceived, -⟩ := (d.accept (bytes.extract 0 (d.room bytes.size))).writeAll_split
      (bytes.extract (d.room bytes.size) bytes.size) stuck
    have hle := d.room_le bytes.size
    simp only [hsize, hroom, or_self, iff_false]
    intro same
    have hlength := congrArg ByteArray.size (hreceived.symm.trans same)
    simp only [accept, ByteArray.size_append, ByteArray.size_extract] at hlength
    omega

namespace Channel

/-- The bytes that are buffered. -/
def buffered : Channel → ByteArray
  | held output => output.buffer
  | released _ => .empty

/-- A flush that gets all the way leaves nothing buffered; any other leaves what was not taken. -/
theorem flush_split (c : Channel) :
    ∃ k ≤ c.buffered.size, c.flush.1.destination.received = c.destination.received ++ c.buffered.extract 0 k ∧
      c.flush.1.buffered = c.buffered.extract k c.buffered.size ∧
      (c.flush.2 = some (.ok ()) → k = c.buffered.size) := by
  cases c with
  | released destination => exact ⟨0, Nat.le_refl _, ByteArray.append_empty.symm, rfl, nofun⟩
  | held output =>
    obtain ⟨k, hk, hreceived, hrest, hresult⟩ := output.destination.writeAll_split output.buffer .bufferStuck
    refine ⟨k, hk, ?_⟩
    show (held output.flush.1).destination.received = _ ∧ (held output.flush.1).buffered = _ ∧
      (some output.flush.2 = some (.ok ()) → k = output.buffer.size)
    unfold Output.flush Output.drain
    rcases hresult with ⟨hok, hall⟩ | ⟨fault, herror, -⟩
    · simp only [hok]
      exact ⟨hreceived, hrest, fun _ => hall⟩
    · simp only [herror]
      exact ⟨hreceived, hrest, nofun⟩

theorem received_flush_iff (c : Channel) :
    c.flush.1.destination.received = c.destination.received ↔
      c.buffered = .empty ∨ c.destination.room c.buffered.size = 0 := by
  cases c with
  | released destination => exact ⟨fun _ => .inl rfl, fun _ => rfl⟩
  | held output =>
    have hdrained : (held output).flush.1.destination =
        (output.destination.writeAll output.buffer .bufferStuck).1 := by
      show output.flush.1.destination = _
      unfold Output.flush Output.drain
      rcases output.destination.writeAll output.buffer .bufferStuck with ⟨destination, rest, fault | _⟩ <;> rfl
    rw [hdrained, ← ByteArray.size_eq_zero_iff]
    exact output.destination.received_writeAll_iff output.buffer .bufferStuck

end Channel

/-- A destination that does no harm gets the whole stream in a flush. -/
theorem Channel.Harmless.received_flush {c : Channel} (h : c.Harmless) : c.flush.1.destination.received = c.stream := by
  obtain ⟨k, -, hreceived, -, hall⟩ := c.flush_split
  cases h with
  | held harmless =>
    rw [hreceived, hall (congrArg some (Output.flush_harmless harmless).2), ByteArray.extract_zero_size]
    rfl

namespace Session
variable {s : Session}

/-- The session in some process, where a fork was seen or not. -/
def inProcess (s : Session) (process : ProcessId) (broken : Bool) : Session :=
  { s with host := s.host.inProcess process, ownership := { s.ownership with broken } }

theorem flush_inProcess (s : Session) (process : ProcessId) (broken : Bool) :
    (s.inProcess process broken).flush = (s.flush.1.inProcess process broken, s.flush.2) := by
  unfold flush inProcess
  rcases s.channel.flush with ⟨channel, _ | result⟩ <;> rfl

theorem flush_ok (h : s.flush.2 = .ok ()) : s.channel.flush.2 = some (.ok ()) := by
  unfold flush at h
  rcases hf : s.channel.flush with ⟨channel, _ | fault | _⟩
  · rw [hf] at h
    cases h
  · rw [hf] at h
    cases h
  · rfl

/-- A new row that the buffer has room for stays in the buffer. -/
theorem Tracks.deliver_kept {settings : Settings} {calls : List OpenCall} (h : Tracks settings calls s)
    {n : Notification} {event : Event} (he : n.event? = some event)
    (outside : settings.ownEntity ≠ some event.method.entity) {row : String}
    (hrow : settings.row? calls event = some row) (hnew : ¬s.seen.Has row) {output : Output}
    (hheld : s.channel = .held output) (room : output.buffer.size + row.toUTF8.size < Output.bufferSize) :
    (s.deliver n).1.channel = .held (output.keep row.toUTF8) := by
  obtain ⟨-, -, hfate⟩ := h.deliver he outside
  have hwrite : s.channel.write row.toUTF8 = (.held (output.keep row.toUTF8), .ok ()) := by
    rw [hheld, Channel.write, Output.write_of_room room]
  rw [hrow] at hfate
  generalize (s.deliver n).2 = outcome at hfate
  cases hfate with
  | duplicate _ hhas => exact absurd hhas hnew
  | recorded _ _ hw => exact congrArg Prod.fst (hw.symm.trans hwrite)
  | writeFailed _ _ hw => exact nomatch congrArg Prod.snd (hw.symm.trans hwrite)

/-- A flush does the same in every process, whether a fork was seen or not. It leaves the destination as it was exactly
if nothing is buffered or the destination takes no byte at all. -/
theorem flush_in_any_process (s : Session) (process : ProcessId) (broken : Bool) :
    let child := s.inProcess process broken
    child.flush = (s.flush.1.inProcess process broken, s.flush.2) ∧
      (child.flush.1.destination.received = s.destination.received ↔
        s.channel.buffered = .empty ∨ s.destination.room s.channel.buffered.size = 0) ∧
      ∃ k ≤ s.channel.buffered.size,
        child.flush.1.destination.received = s.destination.received ++ s.channel.buffered.extract 0 k ∧
        child.flush.1.channel.buffered = s.channel.buffered.extract k s.channel.buffered.size ∧
        (child.flush.2 = .ok () → k = s.channel.buffered.size) := by
  intro child
  have hsame : child.flush = (s.flush.1.inProcess process broken, s.flush.2) := flush_inProcess s process broken
  have hchannel : child.flush.1.channel = s.channel.flush.1 := congrArg Session.channel (flush_eq child)
  have hdestination : child.flush.1.destination = s.channel.flush.1.destination := congrArg Channel.destination hchannel
  obtain ⟨k, hk, hreceived, hrest, hall⟩ := s.channel.flush_split
  refine ⟨hsame, ?_, k, hk, ?_, ?_, fun hok => hall ?_⟩
  · rw [hdestination]
    exact s.channel.received_flush_iff
  · rw [hdestination]
    exact hreceived
  · rw [hchannel]
    exact hrest
  · rw [hsame] at hok
    exact flush_ok hok

/-- A row that is still buffered at a fork is put out by the parent's flush and by the child's. -/
theorem row_flushed_twice :
    let call : Notification := { kind := .enter, receiver := .unknown }
    ∃ s, create { rootCalls := true } { destination := { faults := {} }, label := "" } { process := 1 } = .ok s ∧
      let parent := (s.performAll [.start, .deliver call]).1
      let child := (parent.perform (.enterProcess 2)).1
      let header := Layout.edges.header.toUTF8
      let row := "\"<UNKNOWN>\",\"<UNKNOWN>\",instance,\"\",0,\"<ROOT>\",\"<ROOT>\",<UNKNOWN>\n".toUTF8
      child.ownsProcess = false ∧ child.destination.received = header ∧
        child.flush.1.destination.received = header ++ row ∧ parent.flush.1.destination.received = header ++ row := by
  intro call
  obtain ⟨s, opened⟩ := create_in_memory { rootCalls := true } (by decide)
  have fresh := create_fresh opened
  obtain ⟨output, hheld, hempty⟩ := create_drained opened
  have hsame := start_sameTrace s
  obtain ⟨event, hevent, outside, hrow⟩ : ∃ event, call.event? = some event ∧
      some "Calltrace::Session" ≠ some event.method.entity ∧ Settings.row? { rootCalls := true } [] event =
        some "\"<UNKNOWN>\",\"<UNKNOWN>\",instance,\"\",0,\"<ROOT>\",\"<ROOT>\",<UNKNOWN>\n" :=
    ⟨_, rfl, by decide, by decide +kernel⟩
  have hkept := fresh.start.1.deliver_kept hevent outside hrow
    (by rw [hsame.seen, fresh.seen]; simp [SeenRows.Has]) (hsame.channel.trans hheld)
    (by rw [hempty]; decide +kernel)
  refine ⟨s, opened, ?_⟩
  intro parent child header row
  have hparent : parent.channel = .held (output.keep row) := hkept
  have hreceived : output.destination.received = header := by
    have hstream := fresh.stream
    rw [hheld, Channel.stream, Output.stream, hempty, ByteArray.append_empty] at hstream
    exact hstream
  have hflushed : parent.channel.flush.1.destination.received = header ++ row := by
    have harmless : (Channel.held (output.keep row)).Harmless := by
      cases hheld ▸ create_harmless opened Faults.harmless_of_none with
      | held hdestination => exact .held hdestination
    rw [hparent, harmless.received_flush]
    show output.destination.received ++ (output.buffer ++ row) = header ++ row
    rw [hreceived, hempty, ByteArray.empty_append]
  have howner : child.ownership.owner = 1 :=
    ((reaches_stepsOfAll s [.start, .deliver call, .enterProcess 2]).owner fresh.sound).trans
      (congrArg Ownership.owner fresh.ownership)
  refine ⟨not_owns_of_other ?_, ?_, ?_, ?_⟩
  · rw [howner]
    show (2 : ProcessId) ≠ 1
    decide
  · show parent.channel.destination.received = header
    rw [hparent]
    exact hreceived
  · rw [flush_eq]
    exact hflushed
  · rw [flush_eq]
    exact hflushed

end Session
end MethodTrace
