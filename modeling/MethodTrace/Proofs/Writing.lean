import Mathlib.Tactic.Common
import MethodTrace.Output.Buffered

/-! # Writing lines through the buffer

The stream of an output is what its destination received, then what is buffered. Driving the buffer out keeps the
stream, however far it gets. Writing a line adds all of it, or a part that ends before its last byte if the write
fails; only a line that is longer than the buffer can leave such a part. A destination that never has a limit and always
takes some bytes at a time never fails a write. -/

namespace MethodTrace

/-- A destination takes some bytes in a write, after as many interrupts as it likes. -/
structure Behaviour.Harmless (b : Behaviour) : Prop where
  limit : b.limit = none
  chunk : b.chunk ≠ some 0
  refusesFlush : b.refusesFlush = false

/-- A destination takes all bytes in the end, in as many pieces as it likes. -/
structure Faults.Harmless (f : Faults) : Prop extends f.toBehaviour.Harmless where
  later : ∀ b ∈ f.later, b.Harmless

theorem Faults.harmless_of_none : Faults.Harmless {} := ⟨⟨rfl, by decide, rfl⟩, by simp⟩

theorem Faults.Harmless.of_chunk {size : Nat} (h : size ≠ 0) : Faults.Harmless { chunk := some size } :=
  ⟨⟨rfl, by simpa using h, rfl⟩, by simp⟩

theorem Faults.Harmless.next {f : Faults} (h : f.Harmless) : f.next.Harmless := by
  unfold Faults.next
  split
  next => exact h
  next behaviour later hlater =>
    have hall := h.later
    rw [hlater] at hall
    exact ⟨hall behaviour List.mem_cons_self, fun b hb => hall b (List.mem_cons_of_mem _ hb)⟩

namespace Destination

/-- A write puts out the bytes up to some point, and gives back the rest. -/
theorem writeAll_split (d : Destination) (bytes : ByteArray) (stuck : WriteFault) :
    ∃ k ≤ bytes.size, (d.writeAll bytes stuck).1.received = d.received ++ bytes.extract 0 k ∧
      (d.writeAll bytes stuck).2.1 = bytes.extract k bytes.size ∧
      ((d.writeAll bytes stuck).2.2 = .ok () ∧ k = bytes.size ∨
        ∃ fault, (d.writeAll bytes stuck).2.2 = .error fault ∧ k < bytes.size) := by
  fun_induction writeAll d bytes stuck with
  | case1 d bytes hsize =>
    refine ⟨0, Nat.zero_le _, ?_, ?_, .inl ⟨rfl, hsize.symm⟩⟩
    · rw [ByteArray.extract_same, ByteArray.append_empty]
    · rw [ByteArray.extract_zero_size]
  | case2 d bytes _ _ ih => exact ih
  | case3 d bytes hsize _ hroom =>
    refine ⟨0, Nat.zero_le _, ?_, ?_, .inr ⟨_, rfl, Nat.pos_of_ne_zero hsize⟩⟩
    · rw [ByteArray.extract_same, ByteArray.append_empty]
      rfl
    · rw [ByteArray.extract_zero_size]
  | case4 d bytes hsize _ hroom ih =>
    obtain ⟨k, hk, hreceived, hrest, hresult⟩ := ih
    have hle := d.room_le bytes.size
    have hrestSize : (bytes.extract (d.room bytes.size) bytes.size).size = bytes.size - d.room bytes.size := by
      rw [ByteArray.size_extract, Nat.min_self]
    rw [hrestSize] at hk hrest hresult
    refine ⟨d.room bytes.size + k, by omega, ?_, ?_, ?_⟩
    · rw [hreceived, accept, ByteArray.append_assoc, ByteArray.extract_extract, Nat.add_zero,
        Nat.min_eq_left (by omega),
        ← ByteArray.extract_eq_extract_append_extract (d.room bytes.size) (Nat.zero_le _) (by omega)]
    · rw [hrest, ByteArray.extract_extract]
      congr 1
      omega
    · rcases hresult with ⟨hok, hk'⟩ | ⟨fault, herror, hk'⟩
      · exact .inl ⟨hok, by omega⟩
      · exact .inr ⟨fault, herror, by omega⟩

theorem room_pos_of_harmless {d : Destination} (h : d.faults.Harmless) {length : Nat} (hl : 0 < length) :
    0 < d.room length := by
  unfold room Behaviour.room
  rw [h.limit]
  cases hc : d.faults.chunk with
  | none => exact hl
  | some chunk =>
    have : chunk ≠ 0 := fun h0 => h.chunk (by rw [hc, h0])
    dsimp only
    omega

theorem writeAll_full {d : Destination} (h : d.faults = { limit := some 0 }) {bytes : ByteArray}
    (hb : bytes.size ≠ 0) (stuck : WriteFault) : (d.writeAll bytes stuck).2.2 = .error .full := by
  have hroom : d.room bytes.size = 0 := by simp [room, Behaviour.room, h]
  unfold writeAll
  rw [if_neg hb, if_neg (by simp [h]), if_pos hroom]
  simp [refusal, h]

theorem writeAll_ne_released (d : Destination) (bytes : ByteArray) {stuck : WriteFault} (h : stuck ≠ .released) :
    (d.writeAll bytes stuck).2.2 ≠ .error .released := by
  fun_induction writeAll d bytes stuck with
  | case1 => simp
  | case2 d bytes _ _ ih => exact ih
  | case3 d bytes _ _ _ =>
    simp only [refusal, ne_eq, Except.error.injEq]
    split
    · exact h
    · simp
  | case4 d bytes _ _ _ ih => exact ih

theorem writeAll_harmless {d : Destination} (h : d.faults.Harmless) (bytes : ByteArray) (stuck : WriteFault) :
    (d.writeAll bytes stuck).1.faults.Harmless ∧ (d.writeAll bytes stuck).2.2 = .ok () := by
  fun_induction writeAll d bytes stuck with
  | case1 => exact ⟨h, rfl⟩
  | case2 d bytes _ _ ih => exact ih ⟨⟨h.limit, h.chunk, h.refusesFlush⟩, h.later⟩
  | case3 d bytes hsize _ hroom =>
    exact absurd hroom (Nat.pos_iff_ne_zero.mp (room_pos_of_harmless h (Nat.pos_of_ne_zero hsize)))
  | case4 d bytes _ _ _ ih => exact ih h.next

end Destination

namespace Output
variable {o : Output}

theorem drain_stream (o : Output) : o.drain.1.stream = o.stream := by
  obtain ⟨k, hk, hreceived, hrest, -⟩ := o.destination.writeAll_split o.buffer .bufferStuck
  show (o.destination.writeAll o.buffer .bufferStuck).1.received ++
    (o.destination.writeAll o.buffer .bufferStuck).2.1 = o.destination.received ++ o.buffer
  rw [hreceived, hrest, ByteArray.append_assoc,
    ← ByteArray.extract_eq_extract_append_extract k (Nat.zero_le _) hk, ByteArray.extract_zero_size]

theorem drain_empties (h : o.drain.2 = .ok ()) : o.drain.1.buffer = .empty := by
  obtain ⟨k, hk, -, hrest, ⟨-, hall⟩ | ⟨fault, herror, -⟩⟩ :=
    o.destination.writeAll_split o.buffer .bufferStuck
  · show (o.destination.writeAll o.buffer .bufferStuck).2.1 = .empty
    rw [hrest, hall, ByteArray.extract_same]
  · have : Except.ok () = Except.error fault := h.symm.trans herror
    cases this

/-- What a failed write of a line may add to the stream. -/
structure Partial (line chunk : ByteArray) : Prop where
  cut : ∃ k < line.size, chunk = line.extract 0 k
  short : line.size < bufferSize → chunk = .empty

/-- What a write of a line adds to the stream. -/
def Adds (line chunk : ByteArray) : Except WriteFault Unit → Prop
  | .ok () => chunk = line
  | .error _ => Partial line chunk

theorem place_stream (line : ByteArray) (hbuffer : bufferSize ≤ line.size → o.buffer = .empty) :
    ∃ chunk, Adds line chunk (o.place line).2 ∧ (o.place line).1.stream = o.stream ++ chunk := by
  unfold place
  split
  next hlong =>
    obtain ⟨k, hk, hreceived, -, hresult⟩ := o.destination.writeAll_split line .lineStuck
    have hstream : (o.writeThrough line).1.stream = o.stream ++ line.extract 0 k := by
      show (o.destination.writeAll line .lineStuck).1.received ++ o.buffer = o.destination.received ++ o.buffer ++ _
      rw [hreceived, hbuffer hlong, ByteArray.append_empty, ByteArray.append_empty]
    refine ⟨line.extract 0 k, ?_, hstream⟩
    unfold writeThrough
    rcases hresult with ⟨hok, hall⟩ | ⟨fault, herror, hlt⟩
    · simp only [hok]
      exact hall ▸ ByteArray.extract_zero_size
    · simp only [herror]
      exact ⟨⟨k, hlt, rfl⟩, fun hshort => absurd hlong (Nat.not_le_of_lt hshort)⟩
  next hshort => exact ⟨line, rfl, (ByteArray.append_assoc).symm⟩

/-- A line that leaves room in the buffer is only kept. -/
theorem write_of_room {o : Output} {line : ByteArray} (h : o.buffer.size + line.size < bufferSize) :
    o.write line = (o.keep line, .ok ()) := by
  have hspare : line.size < bufferSize - o.buffer.size := by omega
  unfold write
  rw [if_pos hspare]

/-- A write adds the line to the stream, or a part of it if it fails. -/
theorem write_stream (o : Output) (line : ByteArray) :
    ∃ chunk, Adds line chunk (o.write line).2 ∧ (o.write line).1.stream = o.stream ++ chunk := by
  unfold write
  dsimp only
  split
  · exact ⟨line, rfl, (ByteArray.append_assoc).symm⟩
  next hspare =>
    split
    · rcases hd : o.drain with ⟨drained, fault | _⟩
      · -- The line is not touched when the buffer cannot be driven out.
        have hstream := o.drain_stream
        rw [hd] at hstream
        refine ⟨.empty, ⟨⟨0, by omega, by rw [ByteArray.extract_same]⟩, fun _ => rfl⟩, ?_⟩
        rw [ByteArray.append_empty]
        exact hstream
      · have hstream := o.drain_stream
        have hempty := o.drain_empties (by rw [hd])
        rw [hd] at hstream hempty
        rw [← hstream]
        exact place_stream line fun _ => hempty
    next hfull =>
      -- A line that fills the spare room exactly is as long as the buffer only if that is empty.
      refine place_stream line fun hlong => ByteArray.size_eq_zero_iff.mp ?_
      unfold bufferSize at *
      omega

theorem flush_empties (h : o.flush.2 = .ok ()) : o.flush.1.buffer = .empty := by
  unfold flush at *
  rcases hd : o.drain with ⟨drained, fault | _⟩ <;> rw [hd] at h
  · cases h
  · have hempty := o.drain_empties (by rw [hd])
    rw [hd] at hempty
    exact hempty

theorem flush_stream (o : Output) : o.flush.1.stream = o.stream := by
  have hstream := o.drain_stream
  unfold flush
  rcases hd : o.drain with ⟨drained, fault | _⟩ <;> rw [hd] at hstream <;> exact hstream

/-! ### Destinations that are full, and those that do no harm -/

theorem write_full (h : o.destination.faults = { limit := some 0 }) (hempty : o.buffer = .empty) {line : ByteArray}
    (hlong : bufferSize ≤ line.size) : (o.write line).2 = .error .full := by
  have hbuffer : o.buffer.size = 0 := by
    rw [hempty]
    rfl
  have hdrain : o.drain = (o, .ok ()) := by
    unfold drain Destination.writeAll
    rw [if_pos hbuffer]
  have hplace : (o.place line).2 = .error .full := by
    have hline : line.size ≠ 0 := by
      unfold bufferSize at hlong
      omega
    unfold place
    rw [if_pos hlong]
    exact Destination.writeAll_full h hline _
  unfold write
  simp only [hbuffer, Nat.sub_zero, hdrain, if_neg (Nat.not_lt_of_le hlong)]
  split
  · exact hplace
  · exact hplace

theorem write_ne_released (o : Output) (line : ByteArray) : (o.write line).2 ≠ .error .released := by
  have hdrain : o.drain.2 ≠ .error .released := Destination.writeAll_ne_released _ _ (by simp)
  have hplace : ∀ o : Output, (o.place line).2 ≠ .error .released := by
    intro o
    unfold place
    split
    · exact Destination.writeAll_ne_released o.destination line (by simp)
    · simp
  unfold write
  dsimp only
  split
  · simp
  · split
    · rcases hd : o.drain with ⟨drained, fault | _⟩
      · rw [hd] at hdrain
        exact hdrain
      · exact hplace drained
    · exact hplace o

theorem drain_harmless (h : o.destination.faults.Harmless) :
    o.drain.1.destination.faults.Harmless ∧ o.drain.2 = .ok () :=
  Destination.writeAll_harmless h o.buffer .bufferStuck

theorem place_harmless (h : o.destination.faults.Harmless) (line : ByteArray) :
    (o.place line).1.destination.faults.Harmless ∧ (o.place line).2 = .ok () := by
  unfold place
  split
  · exact Destination.writeAll_harmless h line .lineStuck
  · exact ⟨h, rfl⟩

theorem write_harmless (h : o.destination.faults.Harmless) (line : ByteArray) :
    (o.write line).1.destination.faults.Harmless ∧ (o.write line).2 = .ok () := by
  unfold write
  dsimp only
  split
  · exact ⟨h, rfl⟩
  · split
    · obtain ⟨hd, hok⟩ := drain_harmless h
      rcases hdrain : o.drain with ⟨drained, fault | _⟩
      · rw [hdrain] at hok
        cases hok
      · rw [hdrain] at hd
        exact place_harmless hd line
    · exact place_harmless h line

theorem flush_harmless (h : o.destination.faults.Harmless) :
    o.flush.1.destination.faults.Harmless ∧ o.flush.2 = .ok () := by
  obtain ⟨hd, hok⟩ := drain_harmless h
  unfold flush
  rcases hdrain : o.drain with ⟨drained, fault | _⟩
  · rw [hdrain] at hok
    cases hok
  · rw [hdrain] at hd
    refine ⟨hd, ?_⟩
    show drained.destination.flush = .ok ()
    unfold Destination.flush
    rw [hd.refusesFlush]
    rfl

end Output

namespace Channel
variable {c : Channel}

@[simp] theorem isHeld_write (c : Channel) (line : ByteArray) : (c.write line).1.isHeld = c.isHeld := by
  cases c <;> rfl

@[simp] theorem isHeld_flush (c : Channel) : c.flush.1.isHeld = c.isHeld := by
  cases c <;> rfl

@[simp] theorem isHeld_setFaults (faults : Faults) (c : Channel) : (c.setFaults faults).isHeld = c.isHeld := by
  cases c <;> rfl

@[simp] theorem received_setFaults (faults : Faults) (c : Channel) :
    (c.setFaults faults).destination.received = c.destination.received := by
  cases c <;> rfl

@[simp] theorem destination_abandon (c : Channel) : c.abandon.destination = c.destination := by
  cases c <;> rfl

theorem abandon_of_released (h : c.isHeld = false) : c.abandon = c := by
  cases c with
  | held output => cases h
  | released destination => rfl

theorem isHeld_close (c : Channel) : c.close.1.isHeld = false := by
  cases c <;> rfl

theorem isHeld_abandon (c : Channel) : c.abandon.isHeld = false := by
  cases c <;> rfl

/-- Only an output that was let go fails a write for that reason. -/
theorem write_ne_released (h : c.isHeld = true) (line : ByteArray) : (c.write line).2 ≠ .error .released := by
  cases c with
  | held output => exact output.write_ne_released line
  | released destination => cases h

theorem write_stream (h : c.isHeld = true) (line : ByteArray) :
    ∃ chunk, Output.Adds line chunk (c.write line).2 ∧ (c.write line).1.stream = c.stream ++ chunk := by
  cases c with
  | held output => exact output.write_stream line
  | released destination => cases h

/-- What a write leaves behind, if the output is still held after it. -/
theorem stream_of_write {line : ByteArray} {next : Channel} {result : Except WriteFault Unit}
    (hw : c.write line = (next, result)) (held : next.isHeld = true) :
    c.isHeld = true ∧ ∃ chunk, Output.Adds line chunk result ∧ next.stream = c.stream ++ chunk := by
  have hheld : c.isHeld = true := by
    rw [← isHeld_write c line, hw]
    exact held
  obtain ⟨chunk, hadds, hstream⟩ := write_stream hheld line
  rw [hw] at hadds hstream
  exact ⟨hheld, chunk, hadds, hstream⟩

theorem flush_stream (c : Channel) : c.flush.1.stream = c.stream := by
  cases c with
  | held output => exact output.flush_stream
  | released destination => rfl

theorem setFaults_stream (faults : Faults) (c : Channel) : (c.setFaults faults).stream = c.stream := by
  cases c <;> rfl

/-- The output is held and its destination does no harm. -/
inductive Harmless : Channel → Prop
  | held {output : Output} : output.destination.faults.Harmless → Harmless (.held output)

theorem Harmless.isHeld (h : c.Harmless) : c.isHeld = true := by
  cases h
  rfl

theorem Harmless.faults (h : c.Harmless) : c.destination.faults.Harmless := by
  cases h with
  | held hd => exact hd

theorem Harmless.write (h : c.Harmless) (line : ByteArray) :
    (c.write line).1.Harmless ∧ (c.write line).2 = .ok () := by
  cases h with
  | held hd =>
    obtain ⟨hnext, hok⟩ := Output.write_harmless hd line
    exact ⟨.held hnext, hok⟩

theorem Harmless.stream_of_write (h : c.Harmless) {line : ByteArray} {next : Channel}
    (hw : c.write line = (next, .ok ())) : next.stream = c.stream ++ line := by
  have hnext := (h.write line).1
  rw [hw] at hnext
  obtain ⟨-, chunk, hadds, hstream⟩ := Channel.stream_of_write hw hnext.isHeld
  cases hadds
  exact hstream

theorem Harmless.flush (h : c.Harmless) : c.flush.1.Harmless := by
  cases h with
  | held hd => exact .held (Output.flush_harmless hd).1

theorem Harmless.flush_ok (h : c.Harmless) : c.flush.2 = some (.ok ()) := by
  cases h with
  | held hd => exact congrArg some (Output.flush_harmless hd).2

theorem Harmless.close_ok (h : c.Harmless) : c.close.2 = .ok () := by
  cases h with
  | held hd => exact (Output.flush_harmless hd).2

theorem harmless_of_setFaults {faults : Faults} (held : c.isHeld = true) (harmless : faults.Harmless) :
    (c.setFaults faults).Harmless := by
  cases c with
  | held output => exact .held harmless
  | released destination => cases held

end Channel
end MethodTrace
